import Mathlib.Algebra.Order.Ring.Rat
import Resumable.Decimal
import Resumable.Proofs.Computation
import Resumable.Syntax.Edit

/-!
# What loops over keys do

The meaning of programs that go over the keys of objects, and of the code that lowering their for-in
loops makes: blocks, variables, assignments, `if`, `for`, `for (k in o)`, `break` and `continue`
without a label, adding and deleting keys.  An object is an ordered list of keys and is held by
reference; the values of its keys are not kept.  A list is a value of its own.  Numbers are exact.

`for (k in o) s` evaluates `o` once, takes the keys that are there at the start in their order, and
runs `s` for each of them that is still there when its turn comes.  A run notes every read and every
write of a variable, and every object that a loop begins to go over.  Everything else fails.
-/

namespace Resumable.Enumeration

/-! ## Values and states -/

inductive Value where
  | undefined
  | null
  | number (q : ℚ)
  | boolean (b : Bool)
  | string (text : String)
  | list (items : List Value)
  /-- The object with this number. -/
  | object (address : Nat)

namespace Value

def isTruthy : Value → Bool
  | .undefined | .null => false
  | .number q => q ≠ 0
  | .boolean b => b
  | .string text => text ≠ ""
  | .list _ | .object _ => true

/-- Strict equality; no list is the same as another. -/
def isSame : Value → Value → Bool
  | .undefined, .undefined | .null, .null => true
  | .number p, .number q => p = q
  | .boolean b, .boolean c => b = c
  | .string text, .string other => text = other
  | .object address, .object other => address = other
  | _, _ => false

/-- Numbers are compared; anything else is not less. -/
def isLess : Value → Value → Bool
  | .number p, .number q => p < q
  | _, _ => false

end Value

/-- The number that a numeral stands for. Zero comes first as its parts need not be looked at. -/
def numeral (x : Float) : ℚ :=
  if x = 0 then 0
  else
    let magnitude : ℚ := Decimal.significand x
    let scaled := if 0 ≤ Decimal.binaryExponent x
      then magnitude * 2 ^ (Decimal.binaryExponent x).toNat
      else magnitude / 2 ^ (-Decimal.binaryExponent x).toNat
    if Decimal.isNegative x then -scaled else scaled

/-- What a run notes. -/
inductive Event where
  | read (name : String) (value : Value)
  | write (name : String) (value : Value)
  /-- A loop begins to go over the object with this number. -/
  | enter (address : Nat)

/-- The event is a use of one of these variables, or the begin of a loop. -/
def Event.counts (taken : String → Bool) : Event → Bool
  | .read name _ | .write name _ => taken name
  | .enter _ => true

/-- The keys of every object in their order. -/
abbrev Objects := List (List String)

@[simp] theorem Event.counts_read (taken : String → Bool) (name : String) (value : Value) :
    (Event.read name value).counts taken = taken name := rfl

@[simp] theorem Event.counts_write (taken : String → Bool) (name : String) (value : Value) :
    (Event.write name value).counts taken = taken name := rfl

@[simp] theorem Event.counts_enter (taken : String → Bool) (address : Nat) :
    (Event.enter address).counts taken = true := rfl

structure State where
  store : String → Value
  objects : Objects
  /-- What was noted, oldest first. -/
  trace : List Event

namespace State

/-- The state in which a run starts. -/
def start (store : String → Value) (objects : Objects) : State := ⟨store, objects, []⟩

def note (s : State) (event : Event) : State := { s with trace := s.trace ++ [event] }

def assign (s : State) (name : String) (value : Value) : State :=
  { s with store := fun other => if other = name then value else s.store other }

end State

/-! ## Actions -/

abbrev Eval (α : Type) := Computation State α

def read (name : String) : Eval Value := modifyGet fun s =>
  (s.store name, s.note (.read name (s.store name)))

def write (name : String) (value : Value) : Eval Unit := modifyGet fun s =>
  ((), (s.assign name value).note (.write name value))

/-- An action on the objects alone. -/
def onObjects {α : Type} (f : Objects → α × Objects) : Eval α := modifyGet fun s =>
  ((f s.objects).1, { s with objects := (f s.objects).2 })

/-- Makes an object with these keys. -/
def newObject (keys : List String) : Eval Value := onObjects fun objects =>
  (.object objects.length, objects ++ [keys.eraseDups])

/-- The keys that an object has now. -/
def keysOf (address : Nat) : Eval (List String) := onObjects fun objects =>
  (objects[address]?.getD [], objects)

/-- A new key comes last. -/
def addKey : Value × String → Eval Unit
  | (.object address, key) => onObjects fun objects =>
    ((), objects.modify address fun keys => if key ∈ keys then keys else keys ++ [key])
  | _ => .fail

def deleteKey : Value × String → Eval Unit
  | (.object address, key) => onObjects fun objects =>
    ((), objects.modify address fun keys => keys.filter (· ≠ key))
  | _ => .fail

/-- Whether a key is there. -/
def hasKey (key object : Value) : Eval Value :=
  match key, object with
  | .string key, .object address => do return .boolean (key ∈ (← keysOf address))
  | _, _ => .fail

/-- The place of a list that a number names. -/
def asIndex? (q : ℚ) : Option Nat := if q.den = 1 ∧ 0 ≤ q.num then some q.num.toNat else none

/-- Beyond the end of a list is nothing. -/
def element (object index : Value) : Eval Value :=
  match object, index with
  | .list items, .number q => pure (((asIndex? q).bind fun i => items[i]?).getD .undefined)
  | _, _ => .fail

def property (object : Value) (name : String) : Eval Value :=
  match object, name with
  | .list items, "length" => pure (.number items.length)
  | _, _ => .fail

/-- Puts a value at the end of the list in a variable. -/
def push (name : String) (value : Value) : Eval Value := do
  match ← read name with
  | .list items =>
    write name (.list (items ++ [value]))
    return .number (items.length + 1)
  | _ => .fail

def asKey : Value → Eval String
  | .string key => pure key
  | _ => .fail

/-! ## Loops -/

/-- How a statement ends. -/
inductive Completion where
  | normal
  | broke
  | continued
  deriving DecidableEq

/-- Runs statements one after the other, up to one that does not end normally. -/
def runAll : List (Eval Completion) → Eval Completion
  | [] => pure .normal
  | statement :: rest => do
    match ← statement with
    | .normal => runAll rest
    | completion => return completion

/-- Goes over keys, where those that are gone are passed over. -/
def enumerate (address : Nat) (bind : String → Eval Unit) (body : Eval Completion) :
    List String → Eval Unit
  | [] => pure ()
  | key :: rest => do
    if key ∈ (← keysOf address) then
      bind key
      match ← body with
      | .broke => return ()
      | _ => enumerate address bind body rest
    else enumerate address bind body rest

/-- Begins to go over an object: over the keys that it has now. -/
def enter (address : Nat) : Eval (List String) := modifyGet fun s =>
  (s.objects[address]?.getD [], s.note (.enter address))

/-- Goes over the keys that an object has now. -/
def enumerateObject (bind : String → Eval Unit) (body : Eval Completion) : Value → Eval Unit
  | .object address => do enumerate address bind body (← enter address)
  | _ => .fail

/-! ## Meanings -/

/-- What a node does in each of the places where it may stand. -/
structure Meaning where
  /-- As a statement. -/
  execute : Eval Completion
  /-- As an expression. -/
  evaluate : Eval Value
  /-- As a declaration of a `var` statement. -/
  declare : Eval Unit
  /-- The object and the key that it names, as in `o.k` and `o[e]`. -/
  reference : Eval (Value × String)
  /-- The key that it gives an object literal. -/
  key : Eval String

/-- A part of a node with its meaning. -/
abbrev Part := Node × Meaning

/-- The variable of a loop that names it, or that declares it without a value. -/
def loopVariable? (initializer : Node) : Option String :=
  match initializer.kind with
  | .identifier name => some name
  | .variableStatement [⟨_, .variableDeclaration name none⟩] => some name
  | _ => none

/-- The list variable of `name.push`. -/
def pushTarget? (callee : Node) : Option String :=
  match callee.kind with
  | .propertyAccess object "push" => object.identifierName?
  | _ => none

/-- Gives a variable a value, or adds a key. -/
def assign (target value : Part) : Eval Value :=
  match target.1.identifierName? with
  | some name => do
    let value ← value.2.evaluate
    write name value
    return value
  | none => do
    let reference ← target.2.reference
    let value ← value.2.evaluate
    addKey reference
    return value

/-- Adds one to a variable. -/
def increment (isPrefix : Bool) (operand : Part) : Eval Value := do
  match operand.1.identifierName?, ← operand.2.evaluate with
  | some name, .number q =>
    write name (.number (q + 1))
    return .number (if isPrefix then q + 1 else q)
  | _, _ => .fail

def call (callee : Part) (arguments : List Part) : Eval Value :=
  match pushTarget? callee.1, arguments with
  | some name, [argument] => do push name (← argument.2.evaluate)
  | _, _ => .fail

def evaluateParts : Kind Part → Eval Value
  | .identifier name => read name
  | .numericLiteral x => pure (.number (numeral x))
  | .stringLiteral text => pure (.string text)
  | .booleanLiteral b => pure (.boolean b)
  | .nullLiteral => pure .null
  | .arrayLiteral elements => do return .list (← elements.mapM (·.2.evaluate))
  | .objectLiteral properties => do newObject (← properties.mapM (·.2.key))
  | .callExpression callee arguments => call callee arguments
  | .propertyAccess object name => do property (← object.2.evaluate) name
  | .elementAccess object index => do element (← object.2.evaluate) (← index.2.evaluate)
  | .unaryExpression .not operand => do return .boolean !(← operand.2.evaluate).isTruthy
  | .unaryExpression .delete operand => do
    deleteKey (← operand.2.reference)
    return .boolean true
  | .binaryExpression .assign target value => assign target value
  | .binaryExpression .isIn key object => do hasKey (← key.2.evaluate) (← object.2.evaluate)
  | .binaryExpression .lessThan left right => do
    return .boolean ((← left.2.evaluate).isLess (← right.2.evaluate))
  | .binaryExpression .strictEquals left right => do
    return .boolean ((← left.2.evaluate).isSame (← right.2.evaluate))
  | .updateExpression .increment isPrefix operand => increment isPrefix operand
  | _ => .fail

def executeOr : Option Part → Eval Completion
  | some part => part.2.execute
  | none => pure .normal

def evaluateOr (value : Value) : Option Part → Eval Value
  | some part => part.2.evaluate
  | none => pure value

/-- One round of a `for` loop: whether another one may follow. -/
def round (condition incrementor : Option Part) (body : Part) : Eval Bool := do
  if (← evaluateOr (.boolean true) condition).isTruthy then
    match ← body.2.execute with
    | .broke => return false
    | _ =>
      let _ ← evaluateOr .undefined incrementor
      return true
  else return false

/-- Binds the variable of a loop to a key. -/
def bindKey (initializer : Node) (key : String) : Eval Unit :=
  match loopVariable? initializer with
  | some name => write name (.string key)
  | none => .fail

noncomputable def executeParts : Kind Part → Eval Completion
  | .program statements | .block statements => runAll (statements.map (·.2.execute))
  | .variableStatement declarations => do
    declarations.forM (·.2.declare)
    return .normal
  | .expressionStatement expression => do
    let _ ← expression.2.evaluate
    return .normal
  | .emptyStatement => pure .normal
  | .ifStatement condition thenBranch elseBranch => do
    if (← condition.2.evaluate).isTruthy then thenBranch.2.execute else executeOr elseBranch
  | .forStatement initializer condition incrementor body => do
    let _ ← executeOr initializer
    Computation.repeatWhile (round condition incrementor body)
    return .normal
  | .forInStatement initializer expression body => do
    enumerateObject (bindKey initializer.1) body.2.execute (← expression.2.evaluate)
    return .normal
  | .breakStatement none => pure .broke
  | .continueStatement none => pure .continued
  | _ => .fail

/-- A declaration without a value leaves the variable as it is. -/
def declareParts : Kind Part → Eval Unit
  | .variableDeclaration name (some value) => do write name (← value.2.evaluate)
  | .variableDeclaration _ none => pure ()
  | _ => .fail

def referenceOfParts : Kind Part → Eval (Value × String)
  | .propertyAccess object name => do return (← object.2.evaluate, name)
  | .elementAccess object index => do return (← object.2.evaluate, ← asKey (← index.2.evaluate))
  | _ => .fail

def keyOfParts : Kind Part → Eval String
  | .propertyAssignment name value => do
    let _ ← value.2.evaluate
    return name
  | _ => .fail

noncomputable def meaningOfParts (parts : Kind Part) : Meaning :=
  ⟨executeParts parts, evaluateParts parts, declareParts parts, referenceOfParts parts, keyOfParts parts⟩

/-- The meaning of a node. -/
noncomputable def meaning (node : Node) : Meaning := node.para fun _ parts => meaningOfParts parts

theorem meaning_mk (span : Span) (kind : Kind Node) :
    meaning ⟨span, kind⟩ = meaningOfParts (kind.map fun child => (child, meaning child)) := by
  rw [meaning, Node.para_eq]
  rfl

/-- Runs a program. -/
noncomputable def execute (program : Node) (s : State) : Option (Except Unit Completion × State) :=
  (meaning program).execute.outcome s

end Resumable.Enumeration
