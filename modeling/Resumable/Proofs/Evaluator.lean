import Resumable.Proofs.Computation
import Resumable.Syntax.Edit

/-!
# What a body that yields does

The meaning of the statements that iterating suspensions are written with: blocks, variables,
expression statements, `for` loops, `yield` and `yield for`.  There is one flat store of variables.
A run notes the values that it yields, counts the calls of `source`, which answers the list of items
it was given, and keeps what `yield for` went over.  `__getIterator` opens an iterator on an array,
and `next` takes a step of it.  Everything else fails.
-/

namespace Resumable.Evaluator

/-! ## Values and states -/

inductive Value where
  | undefined
  | number (x : Float)
  | boolean (b : Bool)
  | string (text : String)
  | array (items : List Value)
  /-- The iterator with this number. -/
  | iterator (address : Nat)
  /-- What `next` answers. -/
  | step (isDone : Bool) (value : Value)

namespace Value

/-- Only `true` counts as true. -/
def isTrue : Value → Bool
  | .boolean b => b
  | _ => false

def isArray : Value → Bool
  | .array _ => true
  | _ => false

/-- Numbers are compared; anything else is not less. -/
def isLess : Value → Value → Bool
  | .number x, .number y => x < y
  | _, _ => false

end Value

structure State where
  /-- The value of every variable; one that was never given a value is undefined. -/
  store : String → Value
  /-- What `source` answers. -/
  items : List Value
  /-- For every iterator the values still to come. -/
  iterators : List (List Value)
  /-- The values that were yielded, oldest first. -/
  suspended : List Value
  sourceCalls : Nat
  /-- What `yield for` went over, whether an array or not. -/
  iterated : List Value

namespace State

/-- The state in which a run starts. -/
def start (items : List Value) : State := ⟨fun _ => .undefined, items, [], [], 0, []⟩

def assign (s : State) (name : String) (value : Value) : State :=
  { s with store := fun other => if other = name then value else s.store other }

def suspend (s : State) (values : List Value) : State :=
  { s with suspended := s.suspended ++ values }

/-- `yield for` yields the elements of an array, and goes over anything else without a word. -/
def iterate (s : State) (value : Value) : State :=
  let s := { s with iterated := s.iterated ++ [value] }
  match value with
  | .array items => s.suspend items
  | _ => s

def callSource (s : State) : State := { s with sourceCalls := s.sourceCalls + 1 }

def openIterator (s : State) (items : List Value) : State :=
  { s with iterators := s.iterators ++ [items] }

/-- Takes a step of an iterator. At its end it stays there. -/
def advance (s : State) (address : Nat) : Value × State :=
  match s.iterators[address]?.getD [] with
  | [] => (.step true .undefined, s)
  | value :: rest => (.step false value, { s with iterators := s.iterators.set address rest })

end State

/-! ## Actions -/

abbrev Eval (α : Type) := Computation State α

def read (name : String) : Eval Value := modifyGet fun s => (s.store name, s)

def assign (name : String) (value : Value) : Eval Unit :=
  modifyGet fun s => ((), s.assign name value)

def suspend (values : List Value) : Eval Unit := modifyGet fun s => ((), s.suspend values)

def iterate (value : Value) : Eval Unit := modifyGet fun s => ((), s.iterate value)

def callSource : Eval Value := modifyGet fun s => (.array s.items, s.callSource)

/-- Opens an iterator on an array. -/
def getIterator : Value → Eval Value
  | .array items => modifyGet fun s => (.iterator s.iterators.length, s.openIterator items)
  | _ => .fail

def next : Value → Eval Value
  | .iterator address => modifyGet fun s => s.advance address
  | _ => .fail

def property (value : Value) (name : String) : Eval Value :=
  match value, name with
  | .step isDone _, "done" => pure (.boolean isDone)
  | .step _ value, "value" => pure value
  | .array items, "length" => pure (.number (Float.ofNat items.length))
  | _, _ => .fail

/-! ## Meanings -/

/-- What a node does in each of the places where it may stand. -/
structure Meaning where
  /-- As a statement. -/
  execute : Eval Unit
  /-- As an expression. -/
  evaluate : Eval Value
  /-- As a declaration of a `var` statement. -/
  declare : Eval Unit
  /-- The value of the object, if the node is `object.name`. -/
  object : Eval Value

/-- What a call calls. -/
inductive Callee where
  /-- The step of an iterator. -/
  | next
  | function (name : String)
  | other
  deriving DecidableEq

def callee (node : Node) : Callee :=
  match node.kind with
  | .propertyAccess _ name => if name = "next" then .next else .other
  | .identifier name => .function name
  | _ => .other

/-- A part of a node with its meaning. -/
abbrev Part := Node × Meaning

def evaluateOr (value : Value) : Option Part → Eval Value
  | some part => part.2.evaluate
  | none => pure value

/-- The arguments of `source` are not evaluated, and of `__getIterator` only the first is. -/
def callFunction (name : String) (argument? : Option Part) : Eval Value :=
  if name = "source" then callSource
  else if name = "__getIterator" then
    match argument? with
    | some argument => do getIterator (← argument.2.evaluate)
    | none => .fail
  else .fail

def call (target : Part) (arguments : List Part) : Eval Value :=
  match callee target.1 with
  | .next => do next (← target.2.object)
  | .function name => callFunction name arguments.head?
  | .other => .fail

/-- Gives the variable that a part names a value. -/
def assignOr (otherwise : Eval Unit) (target : Part) (value : Value) : Eval Unit :=
  match target.1.identifierName? with
  | some name => assign name value
  | none => otherwise

/-- Adds one to a number, and to the variable that holds it. -/
def increment (operand : Part) : Value → Eval Value
  | .number x => do
    assignOr (pure ()) operand (.number (x + 1))
    return .number x
  | _ => .fail

def evaluateParts : Kind Part → Eval Value
  | .identifier name => read name
  | .numericLiteral x => pure (.number x)
  | .stringLiteral text => pure (.string text)
  | .booleanLiteral b => pure (.boolean b)
  | .arrayLiteral elements => do return .array (← elements.mapM (·.2.evaluate))
  | .callExpression target arguments => call target arguments
  | .propertyAccess object name => do property (← object.2.evaluate) name
  | .unaryExpression .not operand => do return .boolean !(← operand.2.evaluate).isTrue
  | .binaryExpression .assign target value => do
    let value ← value.2.evaluate
    assignOr .fail target value
    return value
  | .binaryExpression .lessThan left right => do
    return .boolean ((← left.2.evaluate).isLess (← right.2.evaluate))
  | .updateExpression .increment _ operand => do increment operand (← operand.2.evaluate)
  | _ => .fail

/-- One round of a `for` loop: whether there was one. -/
def round (condition incrementor : Option Part) (body : Part) : Eval Bool := do
  if (← evaluateOr (.boolean true) condition).isTrue then
    body.2.execute
    let _ ← evaluateOr .undefined incrementor
    return true
  else return false

def executeOr : Option Part → Eval Unit
  | some part => part.2.execute
  | none => pure ()

noncomputable def executeParts : Kind Part → Eval Unit
  | .program statements | .block statements => statements.forM (·.2.execute)
  | .variableStatement declarations => declarations.forM (·.2.declare)
  | .expressionStatement expression => do let _ ← expression.2.evaluate
  | .forStatement initializer condition incrementor body => do
    executeOr initializer
    .repeatWhile (round condition incrementor body)
  | .suspensionStatement isIteration expression => do
    let value ← evaluateOr .undefined expression
    if isIteration then iterate value else suspend [value]
  | _ => .fail

/-- What is no declaration declares nothing. -/
def declareParts : Kind Part → Eval Unit
  | .variableDeclaration name initializer => do assign name (← evaluateOr .undefined initializer)
  | _ => pure ()

def objectOfParts : Kind Part → Eval Value
  | .propertyAccess object _ => object.2.evaluate
  | _ => .fail

noncomputable def meaningOfParts (parts : Kind Part) : Meaning :=
  ⟨executeParts parts, evaluateParts parts, declareParts parts, objectOfParts parts⟩

/-- The meaning of a node. -/
noncomputable def meaning (node : Node) : Meaning := node.para fun _ parts => meaningOfParts parts

theorem meaning_eq (node : Node) :
    meaning node = meaningOfParts (node.kind.map fun child => (child, meaning child)) := by
  rw [meaning, Node.para_eq]
  rfl

theorem meaning_mk (span : Span) (kind : Kind Node) :
    meaning ⟨span, kind⟩ = meaningOfParts (kind.map fun child => (child, meaning child)) :=
  meaning_eq ⟨span, kind⟩

/-- Runs a body. -/
noncomputable def execute (body : Node) (s : State) : Option (Except Unit Unit × State) :=
  (meaning body).execute.outcome s

end Resumable.Evaluator
