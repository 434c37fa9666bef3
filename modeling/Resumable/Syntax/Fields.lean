import Resumable.Syntax.Kind
import Resumable.Json.Fault

/-!
# The fields of every form

In data form a node is a record: its fields by name. `Kind.fields` takes a kind apart into its
fields, and `Form.record` says which fields a form has and puts a kind together from their values.
-/

namespace Resumable

/-- The shape of a field's value. -/
inductive FieldShape where
  | node
  | optionalNode
  | nodes
  | text
  | optionalText
  | flag
  | number
  | binaryOperator
  | unaryOperator
  | updateOperator
  deriving Repr, DecidableEq

/-- The value of a field, where `ρ` stands for child nodes. -/
inductive FieldValue (ρ : Type) where
  | node (value : ρ)
  | optionalNode (value : Option ρ)
  | nodes (value : List ρ)
  | text (value : String)
  | optionalText (value : Option String)
  | flag (value : Bool)
  | number (value : Float)
  | binaryOperator (value : BinaryOperator)
  | unaryOperator (value : UnaryOperator)
  | updateOperator (value : UpdateOperator)
  deriving Repr, DecidableEq

/-! ## Records -/

/-- The fields from which an `α` is put together, in their order, and how. A field that has to be
there and is not is missed in that order. -/
structure Record (ρ α : Type) where
  shapes : List (String × FieldShape)
  build : (String → Option (FieldValue ρ)) → Except Json.Fault α

namespace Record

variable {ρ α β : Type}

instance : Applicative (Record ρ) where
  pure a := ⟨[], fun _ => .ok a⟩
  seq f x := ⟨f.shapes ++ (x ()).shapes, fun get => do
    let g ← f.build get
    let a ← (x ()).build get
    return g a⟩

/-- A field that has to be there. -/
def required (name : String) (shape : FieldShape) (value? : FieldValue ρ → Option α) :
    Record ρ α where
  shapes := [(name, shape)]
  build get :=
    match (get name).bind value? with
    | some a => .ok a
    | none => .error (.missingField name)

/-- A field that has a value when it is not there. -/
def optional (name : String) (shape : FieldShape) (absent : α) (value? : FieldValue ρ → Option α) :
    Record ρ α where
  shapes := [(name, shape)]
  build get := .ok (((get name).bind value?).getD absent)

def node (name : String) : Record ρ ρ :=
  required name .node fun | .node v => some v | _ => none

def optionalNode (name : String) : Record ρ (Option ρ) :=
  optional name .optionalNode none fun | .optionalNode v => some v | _ => none

def nodes (name : String) : Record ρ (List ρ) :=
  required name .nodes fun | .nodes v => some v | _ => none

def text (name : String) : Record ρ String :=
  required name .text fun | .text v => some v | _ => none

def optionalText (name : String) : Record ρ (Option String) :=
  optional name .optionalText none fun | .optionalText v => some v | _ => none

def flag (name : String) : Record ρ Bool :=
  required name .flag fun | .flag v => some v | _ => none

/-- A flag that is down when it is not there. -/
def optionalFlag (name : String) : Record ρ Bool :=
  optional name .flag false fun | .flag v => some v | _ => none

def number (name : String) : Record ρ Float :=
  required name .number fun | .number v => some v | _ => none

def binaryOperator (name : String) : Record ρ BinaryOperator :=
  required name .binaryOperator fun | .binaryOperator v => some v | _ => none

def unaryOperator (name : String) : Record ρ UnaryOperator :=
  required name .unaryOperator fun | .unaryOperator v => some v | _ => none

def updateOperator (name : String) : Record ρ UpdateOperator :=
  required name .updateOperator fun | .updateOperator v => some v | _ => none

end Record

/-! ## The table -/

open Record in
/-- The fields of a form, and the kind that they make up. -/
def Form.record {ρ : Type} : Form → Record ρ (Kind ρ)
  | .program => .program <$> nodes "statements"
  | .functionDeclaration =>
    .functionDeclaration <$> optionalText "name" <*> optionalFlag "isStatic"
      <*> nodes "parameters" <*> node "body"
  | .functionExpression =>
    .functionExpression <$> optionalText "name" <*> nodes "parameters" <*> node "body"
      <*> optionalFlag "isGenerator"
  | .getAccessorDeclaration =>
    .getAccessorDeclaration <$> text "name" <*> optionalFlag "isStatic" <*> node "body"
  | .setAccessorDeclaration =>
    .setAccessorDeclaration <$> text "name" <*> optionalFlag "isStatic" <*> node "parameter"
      <*> node "body"
  | .classDeclaration => .classDeclaration <$> text "name" <*> nodes "members"
  | .block => .block <$> nodes "statements"
  | .variableStatement => .variableStatement <$> nodes "declarations"
  | .variableDeclaration => .variableDeclaration <$> text "name" <*> optionalNode "initializer"
  | .expressionStatement => .expressionStatement <$> node "expression"
  | .ifStatement =>
    .ifStatement <$> node "condition" <*> node "thenStatement" <*> optionalNode "elseStatement"
  | .whileStatement => .whileStatement <$> node "condition" <*> node "body"
  | .doWhileStatement => .doWhileStatement <$> node "body" <*> node "condition"
  | .forStatement =>
    .forStatement <$> optionalNode "initializer" <*> optionalNode "condition"
      <*> optionalNode "incrementor" <*> node "body"
  | .forInStatement =>
    .forInStatement <$> node "initializer" <*> node "expression" <*> node "body"
  | .forEachStatement =>
    .forEachStatement <$> node "initializer" <*> node "expression" <*> node "body"
  | .returnStatement => .returnStatement <$> optionalNode "expression"
  | .breakStatement => .breakStatement <$> optionalText "label"
  | .continueStatement => .continueStatement <$> optionalText "label"
  | .throwStatement => .throwStatement <$> node "expression"
  | .tryStatement =>
    .tryStatement <$> node "tryBlock" <*> optionalNode "catchClause"
      <*> optionalNode "finallyBlock"
  | .catchClause => .catchClause <$> text "binding" <*> node "block"
  | .labeledStatement => .labeledStatement <$> text "label" <*> node "statement"
  | .emptyStatement => pure .emptyStatement
  | .suspensionStatement =>
    .suspensionStatement <$> optionalFlag "isIterationForm" <*> optionalNode "expression"
  | .asyncSuspensionStatement =>
    .asyncSuspensionStatement <$> optionalText "binding" <*> node "expression"
  | .identifier => .identifier <$> text "name"
  | .numericLiteral => .numericLiteral <$> number "value"
  | .stringLiteral => .stringLiteral <$> text "value"
  | .booleanLiteral => .booleanLiteral <$> flag "value"
  | .nullLiteral => pure .nullLiteral
  | .thisExpression => pure .thisExpression
  | .arrayLiteral => .arrayLiteral <$> nodes "elements"
  | .objectLiteral => .objectLiteral <$> nodes "properties"
  | .propertyAssignment => .propertyAssignment <$> text "name" <*> node "value"
  | .callExpression => .callExpression <$> node "callee" <*> nodes "arguments"
  | .newExpression => .newExpression <$> node "callee" <*> nodes "arguments"
  | .propertyAccess => .propertyAccess <$> node "object" <*> text "name"
  | .elementAccess => .elementAccess <$> node "object" <*> node "index"
  | .binaryExpression =>
    .binaryExpression <$> binaryOperator "operator" <*> node "left" <*> node "right"
  | .unaryExpression => .unaryExpression <$> unaryOperator "operator" <*> node "operand"
  | .updateExpression =>
    .updateExpression <$> updateOperator "operator" <*> flag "prefix" <*> node "operand"
  | .conditionalExpression =>
    .conditionalExpression <$> node "condition" <*> node "whenTrue" <*> node "whenFalse"
  | .yieldExpression => .yieldExpression <$> optionalNode "expression"

/-- The fields of a kind with their values, in the order of its record. -/
def Kind.fields {ρ : Type} : Kind ρ → List (String × FieldValue ρ)
  | .program statements => [("statements", .nodes statements)]
  | .functionDeclaration name isStatic parameters body =>
    [("name", .optionalText name), ("isStatic", .flag isStatic),
      ("parameters", .nodes parameters), ("body", .node body)]
  | .functionExpression name parameters body isGenerator =>
    [("name", .optionalText name), ("parameters", .nodes parameters), ("body", .node body),
      ("isGenerator", .flag isGenerator)]
  | .getAccessorDeclaration name isStatic body =>
    [("name", .text name), ("isStatic", .flag isStatic), ("body", .node body)]
  | .setAccessorDeclaration name isStatic parameter body =>
    [("name", .text name), ("isStatic", .flag isStatic), ("parameter", .node parameter),
      ("body", .node body)]
  | .classDeclaration name members => [("name", .text name), ("members", .nodes members)]
  | .block statements => [("statements", .nodes statements)]
  | .variableStatement declarations => [("declarations", .nodes declarations)]
  | .variableDeclaration name initializer =>
    [("name", .text name), ("initializer", .optionalNode initializer)]
  | .expressionStatement expression => [("expression", .node expression)]
  | .ifStatement condition thenBranch elseBranch =>
    [("condition", .node condition), ("thenStatement", .node thenBranch),
      ("elseStatement", .optionalNode elseBranch)]
  | .whileStatement condition body => [("condition", .node condition), ("body", .node body)]
  | .doWhileStatement body condition => [("body", .node body), ("condition", .node condition)]
  | .forStatement initializer condition incrementor body =>
    [("initializer", .optionalNode initializer), ("condition", .optionalNode condition),
      ("incrementor", .optionalNode incrementor), ("body", .node body)]
  | .forInStatement initializer expression body =>
    [("initializer", .node initializer), ("expression", .node expression), ("body", .node body)]
  | .forEachStatement initializer expression body =>
    [("initializer", .node initializer), ("expression", .node expression), ("body", .node body)]
  | .returnStatement expression => [("expression", .optionalNode expression)]
  | .breakStatement label => [("label", .optionalText label)]
  | .continueStatement label => [("label", .optionalText label)]
  | .throwStatement expression => [("expression", .node expression)]
  | .tryStatement tried handler finalizer =>
    [("tryBlock", .node tried), ("catchClause", .optionalNode handler),
      ("finallyBlock", .optionalNode finalizer)]
  | .catchClause binding body => [("binding", .text binding), ("block", .node body)]
  | .labeledStatement label statement => [("label", .text label), ("statement", .node statement)]
  | .emptyStatement => []
  | .suspensionStatement isIteration expression =>
    [("isIterationForm", .flag isIteration), ("expression", .optionalNode expression)]
  | .asyncSuspensionStatement binding expression =>
    [("binding", .optionalText binding), ("expression", .node expression)]
  | .identifier name => [("name", .text name)]
  | .numericLiteral value => [("value", .number value)]
  | .stringLiteral value => [("value", .text value)]
  | .booleanLiteral value => [("value", .flag value)]
  | .nullLiteral => []
  | .thisExpression => []
  | .arrayLiteral elements => [("elements", .nodes elements)]
  | .objectLiteral properties => [("properties", .nodes properties)]
  | .propertyAssignment name value => [("name", .text name), ("value", .node value)]
  | .callExpression callee arguments =>
    [("callee", .node callee), ("arguments", .nodes arguments)]
  | .newExpression callee arguments => [("callee", .node callee), ("arguments", .nodes arguments)]
  | .propertyAccess object name => [("object", .node object), ("name", .text name)]
  | .elementAccess object index => [("object", .node object), ("index", .node index)]
  | .binaryExpression operator left right =>
    [("operator", .binaryOperator operator), ("left", .node left), ("right", .node right)]
  | .unaryExpression operator operand =>
    [("operator", .unaryOperator operator), ("operand", .node operand)]
  | .updateExpression operator isPrefix operand =>
    [("operator", .updateOperator operator), ("prefix", .flag isPrefix),
      ("operand", .node operand)]
  | .conditionalExpression condition whenTrue whenFalse =>
    [("condition", .node condition), ("whenTrue", .node whenTrue), ("whenFalse", .node whenFalse)]
  | .yieldExpression expression => [("expression", .optionalNode expression)]

namespace Kind

variable {ρ : Type}

/-- A field list as a look-up by name. -/
def lookup (fields : List (String × FieldValue ρ)) (name : String) : Option (FieldValue ρ) :=
  fields.lookup name

/-- A kind is put together again from its fields. -/
theorem build_fields (kind : Kind ρ) :
    (kind.form.record : Record ρ (Kind ρ)).build (lookup kind.fields) = .ok kind := by
  cases kind <;> rfl

end Kind

end Resumable
