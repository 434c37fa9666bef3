import Mathlib.Logic.Relation
import Resumable.Proofs.NodeDrafts
import Resumable.Proofs.Spelling

/-!
# Layouts of a tree

The same tree can be laid out in many ways: the members of an object may stand in any order, any
blanks may stand between the tokens, and nodes may have members that mean nothing.  A text is decoded
to the same node in each of these layouts (`ofText_laidOut`).

The argument is about drafts, where blanks are gone.  One step rearranges one object somewhere in the
draft (`Rearranged`).  What it keeps depends on the role that the object plays there: the node or nodes
that are decoded from it, or else everything that plain data can mean, which is the form of a node, its
span, and the values of its other fields.
-/

namespace Resumable

open Json (Fault Draft bind_eq_ok)

/-! ## Rearranging -/

/-- What a value in the text of a tree is decoded as. -/
inductive Role where
  /-- A node. -/
  | node
  /-- An array of nodes. -/
  | nodes
  /-- Plain data, or nothing at all. -/
  | data

/-- The role of the items of an array. -/
def Role.ofItems : Role → Role
  | .nodes => .node
  | .node | .data => .data

/-- The role of the values of that shape. -/
def FieldShape.role : FieldShape → Role
  | .node | .optionalNode => .node
  | .nodes => .nodes
  | _ => .data

/-- The role of the members of that name. -/
def Form.role (form : Form) (name : String) : Role :=
  (form.shapes.lookup name).elim .data FieldShape.role

/-- The members have a `kind` that names the form. -/
def HasForm (members : List (Option String × Draft)) (form : Form) : Prop :=
  ∃ kind : Json, (some "kind", kind.draft) ∈ members ∧ Form.ofJson kind = .ok form

/-- One step of rearranging a value that has that role and nests at most `levels` deep. Members stand
in any order, so those at the front are any of them. -/
inductive Rearranged : Role → Nat → Draft → Draft → Prop
  /-- The members of an object stand in another order. -/
  | permute {role : Role} {levels : Nat} {members members' : List (Option String × Draft)}
      {closed : Bool} (perm : members.Perm members') :
      Rearranged role levels (.object members closed) (.object members' closed)
  /-- A node has one more member, with any value, under a name that means nothing to it. -/
  | add {levels : Nat} {members : List (Option String × Draft)} {closed : Bool} {form : Form}
      {name : String} {value : Draft} (hasForm : HasForm members form)
      (noField : name ∉ form.fieldNames) (notKind : name ≠ "kind") (notSpan : name ≠ "span")
      (valid : (value.value? (levels - 1)).isSome) :
      Rearranged .node levels (.object members closed) (.object ((some name, value) :: members) closed)
  /-- The value of a member of a node is rearranged. -/
  | member {levels : Nat} {rest : List (Option String × Draft)} {closed : Bool} {form : Form}
      {name : String} {value value' : Draft} (hasForm : HasForm ((some name, value) :: rest) form)
      (step : Rearranged (form.role name) (levels - 1) value value') :
      Rearranged .node levels (.object ((some name, value) :: rest) closed)
        (.object ((some name, value') :: rest) closed)
  /-- The value of a member of an object that is no node is rearranged. -/
  | datum {levels : Nat} {rest : List (Option String × Draft)} {closed : Bool} {key : Option String}
      {value value' : Draft} (step : Rearranged .data (levels - 1) value value') :
      Rearranged .data levels (.object ((key, value) :: rest) closed)
        (.object ((key, value') :: rest) closed)
  /-- An item of an array is rearranged. -/
  | item {role : Role} {levels : Nat} {before after : List Draft} {closed : Bool} {value value' : Draft}
      (step : Rearranged role.ofItems (levels - 1) value value') :
      Rearranged role levels (.array (before ++ value :: after) closed)
        (.array (before ++ value' :: after) closed)

namespace Rearranged

variable {role : Role} {levels : Nat} {d d' : Draft} {members : List (Option String × Draft)} {closed : Bool}

/-! ## What is kept of any value -/

/-- Only containers can be rearranged. -/
theorem container (step : Rearranged role levels d d') :
    (∃ members closed, d = .object members closed) ∨ ∃ items closed, d = .array items closed := by
  cases step with
  | permute | add | member | datum => exact .inl ⟨_, _, rfl⟩
  | item => exact .inr ⟨_, _, rfl⟩

/-- A value that is valid is so after the step. -/
theorem isSome_value? (step : Rearranged role levels d d') (valid : (d.value? levels).isSome) :
    (d'.value? levels).isSome := by
  induction step with
  | permute perm =>
    rw [Draft.isSome_value?_object] at valid ⊢
    exact ⟨valid.1, valid.2.1, fun member mem => valid.2.2 member (perm.mem_iff.2 mem)⟩
  | add _ _ _ _ added =>
    rw [Draft.isSome_value?_object] at valid ⊢
    exact ⟨valid.1, valid.2.1, List.forall_mem_cons.2 ⟨⟨rfl, added⟩, valid.2.2⟩⟩
  | member _ _ ih | datum _ ih =>
    rw [Draft.isSome_value?_object, List.forall_mem_cons] at valid ⊢
    obtain ⟨isClosed, room, ⟨named, first⟩, others⟩ := valid
    exact ⟨isClosed, room, ⟨named, ih first⟩, others⟩
  | item _ ih =>
    rw [Draft.isSome_value?_array, List.forall_mem_append, List.forall_mem_cons] at valid ⊢
    obtain ⟨isClosed, room, before, first, after⟩ := valid
    exact ⟨isClosed, room, before, ih first, after⟩

/-- A value that is complete is so after the step. -/
theorem isComplete (step : Rearranged role levels d d') (complete : d.isComplete = true) :
    d'.isComplete = true := by
  induction step with
  | permute perm =>
    rw [Draft.isComplete_object] at complete ⊢
    exact ⟨complete.1, fun member mem => complete.2 member (perm.mem_iff.2 mem)⟩
  | add _ _ _ _ valid =>
    obtain ⟨v, value⟩ := Option.isSome_iff_exists.1 valid
    rw [Draft.isComplete_object] at complete ⊢
    exact ⟨complete.1, List.forall_mem_cons.2
      ⟨Draft.draft_of_value? value ▸ Json.isComplete_draft v, complete.2⟩⟩
  | member _ _ ih | datum _ ih =>
    rw [Draft.isComplete_object, List.forall_mem_cons] at complete ⊢
    exact ⟨complete.1, ih complete.2.1, complete.2.2⟩
  | item _ ih =>
    rw [Draft.isComplete_array, List.forall_mem_append, List.forall_mem_cons] at complete ⊢
    exact ⟨complete.1, complete.2.1, ih complete.2.2.1, complete.2.2.2⟩

/-! ## What is kept of plain data -/

theorem word_ne_ok (step : Rearranged role levels d d') {w : UInt32} : d.word ≠ .ok w := by
  rcases step.container with ⟨members, closed, rfl⟩ | ⟨items, closed, rfl⟩ <;> exact nofun

/-- A form is not rearranged. -/
theorem decode_form_ne_ok (step : Rearranged role levels d d') {form : Form} :
    d.decode levels Form.ofJson ≠ .ok form := by
  intro decoded
  rcases step.container with ⟨members, closed, rfl⟩ | ⟨items, closed, rfl⟩
  · obtain ⟨-, -, values, -, isForm⟩ := Draft.decode_object_eq_ok_iff.1 decoded
    cases isForm
  · obtain ⟨-, -, values, -, isForm⟩ := Draft.decode_array_eq_ok_iff.1 decoded
    cases isForm

/-- A span is decoded to the same after the step. -/
theorem ofDraft_span (step : Rearranged .data levels d d') {overlong : Nat → Fault} {span : Span}
    (decoded : Span.ofDraft overlong d = .ok span) : Span.ofDraft overlong d' = .ok span := by
  cases step with
  | permute perm =>
    obtain ⟨isClosed, others, start, stop⟩ := Span.ofDraft_object_eq_ok_iff.1 decoded
    exact Span.ofDraft_object_eq_ok_iff.2 ⟨isClosed,
      fun member mem => others member (perm.mem_iff.2 mem),
      start.perm (valuesOf_perm perm _), stop.perm (valuesOf_perm perm _)⟩
  | @datum _ rest _ key value value' step =>
    obtain ⟨isClosed, others, start, stop⟩ := Span.ofDraft_object_eq_ok_iff.1 decoded
    obtain ⟨⟨name, named, first⟩, others⟩ := List.forall_mem_cons.1 others
    have same (name : String) (_ : key = some name) (w : UInt32) (word : value.word = .ok w) :
        value'.word = .ok w := absurd word step.word_ne_ok
    refine Span.ofDraft_object_eq_ok_iff.2 ⟨isClosed, List.forall_mem_cons.2 ⟨⟨name, named, ?_⟩, others⟩,
      start.replace (same _), stop.replace (same _)⟩
    exact first.imp_right (Or.imp_right step.isComplete)
  | @item _ _ before after _ value value' step =>
    obtain ⟨w, word⟩ := Span.word_of_ofDraft_array decoded value (by simp)
    exact absurd word step.word_ne_ok

theorem unit_of_operator {α : Type} {all : List α} {text : α → String} {values : List (String × Json)}
    {operator : α} (decoded : operatorOfJson all text (.object values) = .ok operator) :
    ∃ name value, values = [(name, value)] ∧ (value = .null ∨ value = .object []) := by
  match values with
  | [] => cases decoded
  | [(name, value)] =>
    refine ⟨name, value, rfl, ?_⟩
    obtain ⟨o, -, isUnit⟩ := bind_eq_ok.1 decoded
    match value with
    | .null => exact .inl rfl
    | .object [] => exact .inr rfl
    | .boolean _ | .number _ | .string _ | .array _ | .object (_ :: _) => cases isUnit
  | _ :: _ :: _ => cases decoded

/-- The only objects that are plain data have one member, which stands for an operator. -/
theorem unit_of_field {shape : FieldShape} (plain : shape.role = .data) {values : List (String × Json)}
    {field : FieldValue Node} (decoded : Node.fieldOfJson shape (.object values) = .ok field) :
    ∃ name value, values = [(name, value)] ∧ (value = .null ∨ value = .object []) := by
  cases shape with
  | node | optionalNode | nodes => cases plain
  | text | optionalText | flag | number => cases decoded
  | binaryOperator | unaryOperator | updateOperator =>
    obtain ⟨operator, decoded, -⟩ := Json.map_eq_ok.1 decoded
    exact unit_of_operator decoded

/-- The value of a field that holds no nodes is not rearranged. -/
theorem eq_of_field (step : Rearranged .data levels d d') {shape : FieldShape} (plain : shape.role = .data)
    {field : FieldValue Node} (decoded : d.decode levels (Node.fieldOfJson shape) = .ok field) :
    d' = d := by
  rcases step.container with ⟨members, closed, rfl⟩ | ⟨items, closed, rfl⟩
  · obtain ⟨-, -, values, held, isField⟩ := Draft.decode_object_eq_ok_iff.1 decoded
    obtain ⟨name, value, rfl, isUnit⟩ := unit_of_field plain isField
    obtain ⟨⟨key, unit⟩, _, ⟨-, value⟩, _ | _, rfl⟩ := List.forall₂_cons_right_iff.1 held
    obtain rfl := Draft.draft_of_value? value
    cases step with
    | permute perm => rw [List.singleton_perm.1 perm]
    | datum step =>
      -- The value of the member is null or an empty object.
      rcases isUnit with rfl | rfl
      · rcases step.container with ⟨_, _, ⟨⟩⟩ | ⟨_, _, ⟨⟩⟩
      · rw [Json.draft_object] at step
        generalize same : Draft.object _ _ = empty at step
        cases step with
        | permute perm =>
          cases same
          rw [List.nil_perm.1 perm]
          rfl
        | datum | item => cases same
  · obtain ⟨-, -, values, -, isField⟩ := Draft.decode_array_eq_ok_iff.1 decoded
    cases shape <;> cases plain <;> cases isField

end Rearranged

/-! ## What is kept of nodes -/

/-- A value of that role is decoded to the same after the step. -/
def Role.Keeps (role : Role) (levels : Nat) (d d' : Draft) : Prop :=
  ∀ shape : FieldShape, shape.role = role → ∀ field,
    d.decode levels (Node.fieldOfJson shape) = .ok field →
    d'.decode levels (Node.fieldOfJson shape) = .ok field

namespace Node

variable {levels : Nat} {members members' : List (Option String × Draft)}

/-- The members of a node stand for the same, and they are as readable, after a step. -/
structure Keeps (levels : Nat) (members members' : List (Option String × Draft)) : Prop where
  standFor : ∀ overlong node, StandFor overlong levels members node → StandFor overlong levels members' node
  isReadable : ∀ P : Option String → Prop,
    (∀ member ∈ members, P member.1 → Draft.IsReadable levels member) →
    ∀ member ∈ members', P member.1 → Draft.IsReadable levels member

theorem StandFor.mono {overlong : Nat → Fault} {node : Node}
    (made : StandFor overlong levels members node)
    (span : ∀ span?, Sought (Span.ofDraft overlong) none span? (valuesOf (some "span") members) →
      Sought (Span.ofDraft overlong) none span? (valuesOf (some "span") members'))
    (parts : ∀ form get, Parts levels members form get → Parts levels members' form get) :
    StandFor overlong levels members' node := by
  obtain ⟨span?, form, get, kind, sought, isMade, built⟩ := made
  exact ⟨span?, form, get, kind, span span? sought, parts form get isMade, built⟩

/-- A form that is named among the members is the one of the node. -/
theorem Parts.form_eq {form form' : Form} {get : String → Option (FieldValue Node)}
    (parts : Parts levels members form get) (hasForm : HasForm members form') : form' = form := by
  obtain ⟨kind, mem, named⟩ := hasForm
  have shallow : kind.nesting = 0 := by
    cases kind with
    | null | boolean | number | string => rfl
    | array | object => cases named
  have value : kind.draft.value? levels = some kind := Json.value?_draft (shallow ▸ Nat.zero_le _)
  have among : kind.draft ∈ valuesOf (some "kind") members :=
    List.mem_map.2 ⟨_, List.mem_filter.2 ⟨mem, decide_eq_true rfl⟩, rfl⟩
  rcases parts.isForm with ⟨-, ⟨⟩⟩ | ⟨-, d, form, only, decoded, ⟨⟩⟩
  rw [only, List.mem_singleton] at among
  rw [← among, Draft.decode, value] at decoded
  exact Except.ok.inj (named.symm.trans decoded)

theorem keeps_perm (perm : members.Perm members') : Keeps levels members members' where
  standFor _ _ made := made.mono (fun _ sought => sought.perm (valuesOf_perm perm _)) fun _ _ parts =>
    ⟨parts.isForm.perm (valuesOf_perm perm _), parts.absent,
      fun name shape known => (parts.fields name shape known).perm (valuesOf_perm perm _)⟩
  isReadable _ readable member mem := readable member (perm.mem_iff.2 mem)

theorem keeps_cons {form : Form} {name : String} {value : Draft} (hasForm : HasForm members form)
    (noField : name ∉ form.fieldNames) (notKind : name ≠ "kind") (notSpan : name ≠ "span")
    (valid : (value.value? levels).isSome) : Keeps levels members ((some name, value) :: members) where
  standFor overlong node made := by
    have other {name' : String} (ne : name ≠ name') :
        valuesOf (some name') ((some name, value) :: members) = valuesOf (some name') members := by
      rw [valuesOf_cons, if_neg fun same => ne (Option.some.inj same)]
    refine made.mono (fun span? sought => ?_) fun form' get parts => ?_
    · rwa [other notSpan]
    · obtain rfl := parts.form_eq hasForm
      refine ⟨?_, parts.absent, fun name' shape known => ?_⟩
      · rw [other notKind]
        exact parts.isForm
      · have ne : name ≠ name' := by
          rintro rfl
          rw [Form.lookup_eq_none_iff.2 noField] at known
          cases known
        rw [other ne]
        exact parts.fields name' shape known
  isReadable P readable := List.forall_mem_cons.2 ⟨fun _ => ⟨rfl, valid⟩, readable⟩

theorem keeps_value {form : Form} {name : String} {value value' : Draft}
    {rest : List (Option String × Draft)} (hasForm : HasForm ((some name, value) :: rest) form)
    (step : Rearranged (form.role name) levels value value')
    (keeps : (form.role name).Keeps levels value value') :
    Keeps levels ((some name, value) :: rest) ((some name, value') :: rest) where
  standFor overlong node made := by
    refine made.mono (fun span? sought => ?_) fun form' get parts => ?_
    · refine sought.replace fun same span decoded => ?_
      obtain rfl := Option.some.inj same
      rw [Form.role, Form.lookup_span] at step
      exact step.ofDraft_span decoded
    · obtain rfl := parts.form_eq hasForm
      refine ⟨parts.isForm.replace fun _ _ decoded => absurd decoded step.decode_form_ne_ok, parts.absent,
        fun name' shape known => (parts.fields name' shape known).replace fun same field decoded => ?_⟩
      obtain rfl := Option.some.inj same
      refine keeps shape ?_ field decoded
      rw [Form.role, known]
      rfl
  isReadable P readable := by
    obtain ⟨first, others⟩ := List.forall_mem_cons.1 readable
    exact List.forall_mem_cons.2 ⟨fun isP => ⟨rfl, step.isSome_value? (first isP).2⟩, others⟩

/-- The node itself is kept with its members. -/
theorem Keeps.node {closed : Bool} (keeps : Keeps (levels - 1) members members') :
    Role.node.Keeps levels (.object members closed) (.object members' closed) := by
  have decoded {node : Node} (whole : (Draft.object members closed).decode levels ofJson = .ok node) :
      (Draft.object members' closed).decode levels ofJson = .ok node := by
    obtain ⟨isClosed, room, readable, made⟩ := decode_object_eq_ok_iff.1 whole
    refine decode_object_eq_ok_iff.2 ⟨isClosed, room, fun member mem => ?_, keeps.standFor _ _ made⟩
    exact keeps.isReadable (fun _ => True) (fun member mem _ => readable member mem) member mem trivial
  intro shape isNode field whole
  have nodes (wrap : Node → FieldValue Node)
      (plain : ∀ values, fieldOfJson shape (.object values) = wrap <$> ofJson (.object values)) :
      (Draft.object members' closed).decode levels (fieldOfJson shape) = .ok field := by
    obtain ⟨isClosed, room, values, held, isField⟩ := Draft.decode_object_eq_ok_iff.1 whole
    rw [plain] at isField
    obtain ⟨node, isDecoded, rfl⟩ := Json.map_eq_ok.1 isField
    obtain ⟨-, -, values', held', isDecoded'⟩ := Draft.decode_object_eq_ok_iff.1
      (decoded (Draft.decode_object_eq_ok_iff.2 ⟨isClosed, room, values, held, isDecoded⟩))
    refine Draft.decode_object_eq_ok_iff.2 ⟨isClosed, room, values', held', ?_⟩
    rw [plain]
    exact Json.map_eq_ok.2 ⟨node, isDecoded', rfl⟩
  cases shape with
  | node => exact nodes .node fun _ => rfl
  | optionalNode => exact nodes (.optionalNode ∘ some) fun _ => rfl
  | nodes | text | optionalText | flag | number | binaryOperator | unaryOperator | updateOperator =>
    cases isNode

/-- The root is kept with its members. -/
theorem Keeps.root {closed : Bool} {node : Node} (keeps : Keeps (maxNesting - 1) members members')
    (decoded : ofDraft (.object members closed) = .ok node) :
    ofDraft (.object members' closed) = .ok node := by
  obtain ⟨isClosed, readable, made⟩ := ofDraft_object_eq_ok_iff_standFor.1 decoded
  exact ofDraft_object_eq_ok_iff_standFor.2
    ⟨isClosed, keeps.isReadable (· ≠ some "span") readable, keeps.standFor _ _ made⟩

end Node

namespace Rearranged

variable {role : Role} {levels : Nat} {d d' : Draft}

/-- A value is decoded to the same after the step. -/
theorem keeps (step : Rearranged role levels d d') : role.Keeps levels d d' := by
  induction step with
  | @permute role levels members members' closed perm =>
    cases role with
    | node => exact (Node.keeps_perm perm).node
    | nodes =>
      intro shape isNodes field decoded
      cases shape <;> cases isNodes
      obtain ⟨-, -, values, -, isField⟩ := Draft.decode_object_eq_ok_iff.1 decoded
      cases isField
    | data => exact fun shape plain field decoded => (permute perm).eq_of_field plain decoded ▸ decoded
  | add hasForm noField notKind notSpan valid =>
    exact (Node.keeps_cons hasForm noField notKind notSpan valid).node
  | member hasForm step ih => exact (Node.keeps_value hasForm step ih).node
  | datum step =>
    exact fun shape plain field decoded => (datum step).eq_of_field plain decoded ▸ decoded
  | @item role levels before after closed value value' step ih =>
    cases role with
    | node =>
      intro shape isNode field decoded
      obtain ⟨-, -, values, -, isField⟩ := Draft.decode_array_eq_ok_iff.1 decoded
      cases shape <;> cases isNode <;> cases isField
    | nodes =>
      intro shape isNodes field decoded
      cases shape <;> cases isNodes
      obtain ⟨isClosed, room, nodes, each, same⟩ := Node.decode_items_eq_ok_iff.1 decoded
      refine Node.decode_items_eq_ok_iff.2 ⟨isClosed, room, nodes, forall₂_replace each fun node => ?_, same⟩
      rw [← Node.decode_node_eq_ok_iff, ← Node.decode_node_eq_ok_iff]
      exact ih .node rfl (.node node)
    | data => exact fun shape plain field decoded => (item step).eq_of_field plain decoded ▸ decoded

end Rearranged

/-! ## Texts -/

/-- The texts lay out the same tree: the second one has its objects rearranged, and its own blanks
between the tokens. -/
def LaidOut (text text' : String) : Prop :=
  ∃ d d' : Draft, d.IsTextOf text ∧ d'.IsTextOf text' ∧
    Relation.ReflTransGen (Rearranged .node Node.maxNesting) d d'

namespace Node

/-- The root is decoded to the same after a step. -/
theorem ofDraft_rearranged {d d' : Draft} {node : Node} (step : Rearranged .node maxNesting d d')
    (decoded : ofDraft d = .ok node) : ofDraft d' = .ok node := by
  cases step with
  | permute perm => exact (keeps_perm perm).root decoded
  | add hasForm noField notKind notSpan valid =>
    exact (keeps_cons hasForm noField notKind notSpan valid).root decoded
  | member hasForm step => exact (keeps_value hasForm step step.keeps).root decoded
  | item => cases decoded

/-- And so it is after all of the steps. -/
theorem ofDraft_steps {d d' : Draft} {node : Node}
    (steps : Relation.ReflTransGen (Rearranged .node maxNesting) d d') (decoded : ofDraft d = .ok node) :
    ofDraft d' = .ok node := by
  induction steps with
  | refl => exact decoded
  | tail _ step ih => exact ofDraft_rearranged step ih

theorem ofText_eq_ok_iff {text : String} {d : Draft} {node : Node} (isText : d.IsTextOf text) :
    ofText text = .ok node ↔ ofDraft d = .ok node := by
  rw [ofText, Json.decodeText, Json.read_eq_iff.2 isText]
  cases ofDraft d <;> rfl

/-- A text that is decoded is one of a value. -/
theorem exists_isTextOf {text : String} {node : Node} (decoded : ofText text = .ok node) :
    ∃ d : Draft, d.IsTextOf text := by
  rw [ofText, Json.decodeText] at decoded
  obtain ⟨_, -, ended⟩ := bind_eq_ok.1 decoded
  refine ⟨(Json.read text).root, Json.read_eq_iff.1 ?_⟩
  split at ended
  · rename_i exact
    rw [← exact]
  · cases ended

/-- Decoding does not depend on the layout. A text that is decoded to a node can be laid out, and it
is decoded to the same node however it is. -/
theorem ofText_laidOut {text : String} {node : Node} (decoded : ofText text = .ok node) :
    LaidOut text text ∧ ∀ {text' : String}, LaidOut text text' → ofText text' = .ok node := by
  constructor
  · obtain ⟨d, isText⟩ := exists_isTextOf decoded
    exact ⟨d, d, isText, isText, .refl⟩
  · rintro text' ⟨d, d', isText, isText', steps⟩
    rw [ofText_eq_ok_iff isText] at decoded
    exact (ofText_eq_ok_iff isText').2 (ofDraft_steps steps decoded)

/-- An identifier with its members and those of its span the other way round, and with a note. -/
theorem ofText_laidOut_identifier :
    let text := "\x7b\"kind\":\"Identifier\",\"name\":\"a\",\"span\":\x7b\"start\":7,\"end\":8\x7d\x7d"
    let text' :=
      "\x7b\"note\":[null], \"span\":\x7b\"end\":8,\"start\":7\x7d,\n\"name\":\"a\",\"kind\":\"Identifier\"\x7d"
    let node : Node := ⟨⟨7, 8⟩, .identifier "a"⟩
    LaidOut text text' ∧ ofText text = .ok node ∧ ofText text' = .ok node := by
  intro text text' node
  let kind : Option String × Draft := (some "kind", .string (some "Identifier"))
  let name : Option String × Draft := (some "name", .string (some "a"))
  let ends : List (Option String × Draft) :=
    [(some "start", .number (some (.integer 7))), (some "end", .number (some (.integer 8)))]
  have isText : (Draft.object [kind, name, (some "span", .object ends true)] true).IsTextOf text :=
    Json.read_eq_iff.1 (by dsimp only [text, kind, name, ends]; rfl)
  have isText' : (Draft.object [(some "note", .array [.null] true),
      (some "span", .object ends.reverse true), name, kind] true).IsTextOf text' :=
    Json.read_eq_iff.1 (by dsimp only [text', kind, name, ends]; rfl)
  have hasForm (span : Draft) : HasForm [(some "span", span), name, kind] .identifier :=
    ⟨.string "Identifier", .tail _ (.tail _ (.head _)), rfl⟩
  have laidOut : LaidOut text text' := by
    refine ⟨_, _, isText, isText', .head (.permute (List.reverse_perm _).symm) ?_⟩
    refine .head (.member (hasForm _) (.permute (List.reverse_perm _).symm)) (.single ?_)
    exact .add (hasForm _) (by decide) (by decide) (by decide) rfl
  have decoded : ofText text = .ok node := (ofText_eq_ok_iff isText).2 rfl
  exact ⟨laidOut, decoded, (ofText_laidOut decoded).2 laidOut⟩

end Node

end Resumable
