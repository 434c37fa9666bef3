import Resumable.Proofs.Compact
import Resumable.Proofs.Decoding
import Resumable.Proofs.Scope
import Resumable.Syntax.Encode

/-!
# Trees are read back from their texts

A node is decoded from its data form (`ofJson_toJson`): its fields are all there, each once and with
a value of its shape, from which the value of the field is decoded.  With the text of a tree read back
as its data form, the tree is the one that its compact text is decoded to (`ofText_compact`).
-/

namespace Resumable

open Json (Fault Draft bind_eq_ok map_eq_ok)

/-! ## The table of fields -/

namespace FieldValue

variable {ρ σ : Type}

/-- The shape of a value. -/
def shape : FieldValue ρ → FieldShape
  | .node _ => .node
  | .optionalNode _ => .optionalNode
  | .nodes _ => .nodes
  | .text _ => .text
  | .optionalText _ => .optionalText
  | .flag _ => .flag
  | .number _ => .number
  | .binaryOperator _ => .binaryOperator
  | .unaryOperator _ => .unaryOperator
  | .updateOperator _ => .updateOperator

/-- The nodes in a value. -/
def children : FieldValue ρ → List ρ
  | .node v => [v]
  | .optionalNode v => v.toList
  | .nodes vs => vs
  | _ => []

/-- The value with other nodes. -/
def map (f : ρ → σ) : FieldValue ρ → FieldValue σ
  | .node v => .node (f v)
  | .optionalNode v => .optionalNode (v.map f)
  | .nodes vs => .nodes (vs.map f)
  | .text s => .text s
  | .optionalText s => .optionalText s
  | .flag b => .flag b
  | .number x => .number x
  | .binaryOperator o => .binaryOperator o
  | .unaryOperator o => .unaryOperator o
  | .updateOperator o => .updateOperator o

end FieldValue

namespace Kind

variable {ρ σ : Type}

theorem fields_map (f : ρ → σ) (kind : Kind ρ) :
    (kind.map f).fields = kind.fields.map fun field => (field.1, field.2.map f) := by
  cases kind <;> rfl

theorem shapes_record (kind : Kind ρ) : (kind.form.record : Record ρ (Kind ρ)).shapes =
    kind.fields.map fun field => (field.1, field.2.shape) := by
  cases kind <;> rfl

/-- The children of a kind are the nodes in its fields. -/
theorem children_eq_fields (kind : Kind ρ) :
    kind.children = kind.fields.flatMap fun field => field.2.children := by
  cases kind <;> simp [fields, children, FieldValue.children]

end Kind

/-! ## What was encoded is decoded -/

theorem Form.ofJson_name (form : Form) : Form.ofJson (.string form.name) = .ok form := by
  cases form <;> rfl

theorem BinaryOperator.ofJson_text (o : BinaryOperator) :
    operatorOfJson BinaryOperator.all (·.text) (.string o.text) = .ok o := by
  cases o <;> rfl

theorem UnaryOperator.ofJson_text (o : UnaryOperator) :
    operatorOfJson UnaryOperator.all (·.text) (.string o.text) = .ok o := by
  cases o <;> rfl

theorem UpdateOperator.ofJson_text (o : UpdateOperator) :
    operatorOfJson UpdateOperator.all (·.text) (.string o.text) = .ok o := by
  cases o <;> rfl

theorem Json.word_draft (w : UInt32) : (Json.ofNat w.toNat).draft.word = .ok w := by
  have fits : (0 : Int) ≤ w.toNat ∧ (w.toNat : Int) < UInt32.size :=
    ⟨Int.natCast_nonneg _, Int.ofNat_lt.2 w.toNat_lt_size⟩
  change wordOfInteger w.toNat = _
  rw [wordOfInteger, if_pos fits, Int.toNat_natCast]
  exact congrArg _ UInt32.ofNat_toNat

theorem Span.ofDraft_toJson (overlong : Nat → Fault) (span : Span) :
    ofDraft overlong span.toJson.draft = .ok span := by
  rw [toJson, Json.draft_object, ofDraft]
  simp [Draft.members, ofDraft.field?, ofDraft.readStart, ofDraft.readStop, Json.word_draft]
  rfl

theorem lookup_of_mem {β : Type} {l : List (String × β)} (distinct : (l.map Prod.fst).Nodup)
    {key : String} {value : β} (mem : (key, value) ∈ l) : l.lookup key = some value := by
  induction l with
  | nil => cases mem
  | cons first rest ih =>
    obtain ⟨key', value'⟩ := first
    rw [List.map_cons, List.nodup_cons] at distinct
    rw [List.lookup_cons]
    rcases List.mem_cons.1 mem with same | mem
    · cases same
      simp
    · have inside : key ∈ rest.map Prod.fst := List.mem_map_of_mem mem
      have other : key ≠ key' := fun same => distinct.1 (same ▸ inside)
      rw [beq_eq_false_iff_ne.2 other]
      exact ih distinct.2 mem

namespace Node

/-- The value of a field is decoded from its data form, if the nodes in it are. -/
theorem fieldOfJson_toJson (value : FieldValue Node)
    (nodes : ∀ child ∈ value.children, ofJson child.toJson = .ok child) :
    fieldOfJson value.shape (value.map toJson).toJson = .ok value := by
  cases value with
  | node v => exact map_eq_ok.2 ⟨v, nodes v (.head _), rfl⟩
  | optionalNode v =>
    cases v with
    | none => rfl
    | some v =>
      have decoded := nodes v (.head _)
      change fieldOfJson .optionalNode v.toJson = _
      rw [toJson_eq, encodeLayer] at decoded ⊢
      exact map_eq_ok.2 ⟨v, decoded, rfl⟩
  | nodes vs =>
    refine map_eq_ok.2 ⟨vs, ofItems_eq_ok_iff.2 ?_, rfl⟩
    rw [List.forall₂_map_left_iff, List.forall₂_same]
    exact nodes
  | text s => rfl
  | optionalText s => cases s <;> rfl
  | flag b => rfl
  | number x => rfl
  | binaryOperator o => exact map_eq_ok.2 ⟨o, o.ofJson_text, rfl⟩
  | unaryOperator o => exact map_eq_ok.2 ⟨o, o.ofJson_text, rfl⟩
  | updateOperator o => exact map_eq_ok.2 ⟨o, o.ofJson_text, rfl⟩

/-- Fields with different names are decoded one after the other. -/
theorem fieldsOfMembers_encoded {shapes : List (String × FieldShape)} (encode : FieldValue Node → Json)
    (values fields : List (String × FieldValue Node))
    (known : ∀ value ∈ values, shapes.lookup value.1 = some value.2.shape)
    (decoded : ∀ value ∈ values, fieldOfJson value.2.shape (encode value.2) = .ok value.2)
    (distinct : ((fields ++ values).map Prod.fst).Nodup) :
    fieldsOfMembers shapes fields (values.map fun value => (value.1, encode value.2)) =
      .ok (fields ++ values) := by
  induction values generalizing fields with
  | nil =>
    rw [List.map_nil, fieldsOfMembers, List.append_nil]
  | cons value rest ih =>
    obtain ⟨isKnown, known⟩ := List.forall_mem_cons.1 known
    obtain ⟨isDecoded, decoded⟩ := List.forall_mem_cons.1 decoded
    have new : Kind.lookup fields value.1 = none := by
      refine List.lookup_eq_none_iff.2 fun field old => bne_iff_ne.2 fun same => ?_
      rw [List.map_append, List.nodup_append] at distinct
      exact distinct.2.2 _ (List.mem_map_of_mem old) _ (.head _) same.symm
    rw [List.append_cons] at distinct ⊢
    rw [List.map_cons, fieldsOfMembers_known isKnown, new, isDecoded, ← ih _ known decoded distinct]
    rfl

/-- The fields of a node in data form. -/
def fieldMembers (node : Node) : List (String × Json) :=
  node.kind.fields.map fun field => (field.1, (field.2.map toJson).toJson)

theorem toJson_members (node : Node) :
    node.toJson = .object ((if node.span = .synthetic then [] else [("span", node.span.toJson)]) ++
      ("kind", .string node.form.name) :: node.fieldMembers) := by
  rw [toJson_eq, encodeLayer, Kind.form_map, Kind.fields_map, List.map_map]
  rfl

theorem names_fields (node : Node) : node.kind.fields.map Prod.fst = node.form.fieldNames := by
  have shapes := congrArg (List.map Prod.fst) node.kind.shapes_record
  rw [List.map_map] at shapes
  exact shapes.symm

theorem names_fieldMembers (node : Node) : node.fieldMembers.map Prod.fst = node.form.fieldNames := by
  rw [← names_fields, fieldMembers, List.map_map]
  rfl

/-- The shape that a field of a node has to have is the one that it has. -/
theorem lookup_shapes (node : Node) {field : String × FieldValue Node} (mem : field ∈ node.kind.fields) :
    node.form.shapes.lookup field.1 = some field.2.shape := by
  have distinct : (node.kind.fields.map Prod.fst).Nodup := node.names_fields ▸ node.form.nodup_fieldNames
  have isField : (field.1, field.2.shape) ∈ node.kind.fields.map fun field => (field.1, field.2.shape) :=
    List.mem_map_of_mem mem
  rw [form, Form.shapes, Kind.shapes_record]
  refine lookup_of_mem ?_ isField
  rwa [List.map_map]

/-- The fields of a node are decoded from its data form. -/
theorem fieldsOfMembers_fieldMembers (node : Node)
    (nodes : ∀ child ∈ node.children, ofJson child.toJson = .ok child) :
    fieldsOfMembers (node.form.record : Record Node (Kind Node)).shapes [] node.fieldMembers =
      .ok node.kind.fields := by
  have distinct : (node.kind.fields.map Prod.fst).Nodup := node.names_fields ▸ node.form.nodup_fieldNames
  refine fieldsOfMembers_encoded (fun value => (value.map toJson).toJson) node.kind.fields []
    (fun field mem => node.lookup_shapes mem) (fun field mem => ?_) distinct
  refine fieldOfJson_toJson field.2 fun child inside => nodes child ?_
  rw [children, Kind.children_eq_fields]
  exact List.mem_flatMap.2 ⟨field, mem, inside⟩

/-- A node is made up by its span and the members without it. -/
theorem ofMembers_toJson (node : Node)
    (nodes : ∀ child ∈ node.children, ofJson child.toJson = .ok child) :
    ofMembers node.span (("kind", .string node.form.name) :: node.fieldMembers) = .ok node := by
  have noKind : "kind" ∉ node.fieldMembers.map Prod.fst := by
    rw [names_fieldMembers]
    exact node.form.not_mem_fieldNames.2
  have decoded := fieldsOfMembers_eq_ok_iff.1 ⟨_, node.fieldsOfMembers_fieldMembers nodes, rfl⟩
  refine ofMembers_eq_ok_iff.2
    ⟨node.form, Kind.lookup node.kind.fields, node.kind, ?_, ?_, node.kind.build_fields, by cases node; rfl⟩
  · rw [valuesOf_cons, if_pos rfl, valuesOf_of_not_mem noKind]
    exact sought_cons.2 ⟨rfl, node.form, node.form.ofJson_name, sought_nil.2 rfl⟩
  · rw [soughtFields_unknown node.form.lookup_kind]
    exact decoded

/-- The span among the members means nothing to the kind. -/
theorem ofMembers_span (span : Span) (value : Json) (members : List (String × Json)) :
    ofMembers span (("span", value) :: members) = ofMembers span members := by
  have unknown (form : Form) : form.shapes.lookup ("span", value).1 = none := form.lookup_span
  simp only [ofMembers, fieldsOfMembers_unknown (unknown _)]
  rfl

theorem span_not_mem_members (node : Node) :
    "span" ∉ (("kind", Json.string node.form.name) :: node.fieldMembers).map Prod.fst := by
  rw [List.map_cons, names_fieldMembers, List.mem_cons, not_or]
  exact ⟨show "span" ≠ "kind" by decide, node.form.not_mem_fieldNames.1⟩

/-- A node is decoded from its data form. -/
theorem ofJson_toJson (node : Node) : ofJson node.toJson = .ok node := by
  induction node using inductionOn with
  | step node ih =>
    have noSpan := node.span_not_mem_members
    have decoded := node.ofMembers_toJson ih
    rw [toJson_members, ofJson_object_eq_ok_iff]
    by_cases isSynthetic : node.span = .synthetic
    · rw [if_pos isSynthetic, List.nil_append, valuesOf_of_not_mem noSpan]
      rw [isSynthetic] at decoded
      exact ⟨none, sought_nil.2 rfl, decoded⟩
    · rw [if_neg isSynthetic, List.singleton_append, valuesOf_cons, if_pos rfl,
        valuesOf_of_not_mem noSpan]
      exact ⟨some node.span,
        sought_cons.2 ⟨rfl, node.span, Span.ofDraft_toJson _ node.span, sought_nil.2 rfl⟩,
        (ofMembers_span node.span _ _).trans decoded⟩

/-! ## Whole texts -/

/-- A tree is decoded from its data form, if that does not nest too deep for a text. -/
theorem ofDraft_toJson (node : Node) (shallow : node.toJson.nesting ≤ maxNesting) :
    ofDraft node.toJson.draft = .ok node := by
  have decoded := node.ofMembers_toJson fun child _ => ofJson_toJson child
  have noSpan := node.span_not_mem_members
  rw [toJson_members] at shallow ⊢
  generalize ("kind", Json.string node.form.name) :: node.fieldMembers = members at *
  have noSpan' : some "span" ∉
      (members.map fun member => (some member.1, member.2.draft)).map Prod.fst := by
    simpa using noSpan
  have others : (members.map fun member => (some member.1, member.2.draft)).filter
      (·.1 ≠ some "span") = members.map fun member => (some member.1, member.2.draft) := by
    refine List.filter_eq_self.2 fun member mem => decide_eq_true fun same => noSpan' ?_
    exact same ▸ List.mem_map_of_mem mem
  have values : List.Forall₂ (Draft.HoldsMember (maxNesting - 1))
      (members.map fun member => (some member.1, member.2.draft)) members := by
    refine List.forall₂_map_left_iff.2 (List.forall₂_same.2 fun member mem => ⟨rfl, Json.value?_draft ?_⟩)
    exact Nat.le_sub_one_of_lt
      (Nat.lt_of_lt_of_le (Json.nesting_member_lt (List.mem_append_right _ mem)) shallow)
  rw [Json.draft_object, ofDraft_object_eq_ok_iff, List.map_append]
  by_cases isSynthetic : node.span = .synthetic
  · rw [if_pos isSynthetic, List.map_nil, List.nil_append, valuesOf_of_not_mem noSpan', others]
    rw [isSynthetic] at decoded
    exact ⟨rfl, none, members, sought_nil.2 rfl, values, decoded⟩
  · rw [if_neg isSynthetic, List.map_singleton, List.singleton_append, valuesOf_cons, if_pos rfl,
      valuesOf_of_not_mem noSpan', List.filter_cons_of_neg (by simp), others]
    exact ⟨rfl, some node.span, members,
      sought_cons.2 ⟨rfl, node.span, Span.ofDraft_toJson _ node.span, sought_nil.2 rfl⟩, values, decoded⟩

theorem kind_of_number {kind : Kind Node} {name : String} {x : Float}
    (field : (name, .number x) ∈ kind.fields) : kind = .numericLiteral x := by
  cases kind <;> simp_all [Kind.fields]

/-- The numbers in the data form of a tree are those of its spans and literals. -/
theorem numbers_toJson (node : Node) : ∀ n ∈ node.toJson.numbers,
    (∃ word : UInt32, n = .integer word.toNat) ∨
      ∃ inner ∈ node.subtree, ∃ x, inner.kind = .numericLiteral x ∧ n = .real x := by
  induction node using inductionOn with
  | step node ih =>
    intro n mem
    have ofChild {child : Node} (isChild : child ∈ node.children) (mem : n ∈ child.toJson.numbers) :
        (∃ word : UInt32, n = .integer word.toNat) ∨
          ∃ inner ∈ node.subtree, ∃ x, inner.kind = .numericLiteral x ∧ n = .real x := by
      refine (ih child isChild n mem).imp_right fun ⟨inner, inside, literal⟩ => ⟨inner, ?_, literal⟩
      exact mem_subtree_iff.2 (.inr ⟨child, isChild, inside⟩)
    rw [toJson_members, Json.numbers_object, List.flatMap_append, List.mem_append, List.flatMap_cons,
      List.mem_append] at mem
    rcases mem with ofSpan | ofForm | ofField
    · have words : node.span.toJson.numbers =
          [.integer node.span.start.toNat, .integer node.span.stop.toNat] := rfl
      split at ofSpan
      · cases ofSpan
      · rw [List.flatMap_singleton, words, List.mem_pair] at ofSpan
        rcases ofSpan with rfl | rfl <;> exact .inl ⟨_, rfl⟩
    · cases ofForm
    · obtain ⟨member, isMember, mem⟩ := List.mem_flatMap.1 ofField
      obtain ⟨⟨name, value⟩, isField, rfl⟩ := List.mem_map.1 isMember
      have isChild (child : Node) (inside : child ∈ value.children) : child ∈ node.children := by
        rw [children, Kind.children_eq_fields]
        exact List.mem_flatMap.2 ⟨_, isField, inside⟩
      cases value with
      | node v => exact ofChild (isChild v (.head _)) mem
      | optionalNode v =>
        cases v with
        | none => cases mem
        | some v => exact ofChild (isChild v (.head _)) mem
      | nodes vs =>
        have items : ((FieldValue.nodes vs).map toJson).toJson.numbers =
            (vs.map toJson).flatMap Json.numbers := Json.numbers_array _
        rw [items, List.flatMap_map, List.mem_flatMap] at mem
        obtain ⟨v, inside, mem⟩ := mem
        exact ofChild (isChild v inside) mem
      | number x =>
        cases mem with
        | head => exact .inr ⟨node, self_mem_subtree node, x, kind_of_number isField, rfl⟩
        | tail _ mem => cases mem
      | optionalText s => cases s <;> cases mem
      | text | flag | binaryOperator | unaryOperator | updateOperator => cases mem

/-- Trees are read back from their texts. The compact text of a tree is decoded to the tree, if each
of its numeric literals is finite and read from its own decimal text, and if fewer than 128 containers
nest in the text. -/
theorem ofText_compact (node : Node) (shallow : node.toJson.nesting < 128)
    (finite : ∀ inner ∈ node.subtree, ∀ x, inner.kind = .numericLiteral x → x.isFinite = true)
    (readBack : ∀ inner ∈ node.subtree, ∀ x, inner.kind = .numericLiteral x → x.isFinite = true →
      Json.ofText? (Json.realText x) = some (.number (.real x))) :
    ofText (Json.compact node.toJson) = .ok node := by
  have numbers (n : Json.Number) (mem : n ∈ node.toJson.numbers) : n.IsReadBack := by
    rcases node.numbers_toJson n mem with ⟨word, rfl⟩ | ⟨inner, inside, x, literal, rfl⟩
    · have fits : word.toNat < UInt64.size := Nat.lt_trans word.toNat_lt_size (by decide)
      exact Json.Number.isReadBack_of_isText (Json.isText_ofNat word.toNat fits)
    · exact readBack inner inside x literal (finite inner inside x literal)
  rw [ofText, Json.decodeText, Json.read_compact numbers]
  simp only [ofDraft_toJson node (Nat.le_of_lt_succ shallow)]
  rfl

/-- The text of the call `f(1.5)` is decoded to the call. -/
theorem ofText_compact_call :
    let call : Node := ⟨⟨0, 6⟩, .callExpression ⟨.synthetic, .identifier "f"⟩
      [⟨⟨2, 5⟩, .numericLiteral 1.5⟩]⟩
    call.toJson.nesting < 128 ∧ Json.ofText? (Json.realText 1.5) = some (.number (.real 1.5)) ∧
      ofText (Json.compact call.toJson) = .ok call := by
  intro call
  have shallow : call.toJson.nesting < 128 := by decide
  have literals (inner : Node) (inside : inner ∈ call.subtree) (x : Float)
      (literal : inner.kind = .numericLiteral x) : x = 1.5 := by
    have nodes : call.subtree =
        [call, ⟨.synthetic, .identifier "f"⟩, ⟨⟨2, 5⟩, .numericLiteral 1.5⟩] := rfl
    rw [nodes] at inside
    simp only [List.mem_cons, List.not_mem_nil, or_false] at inside
    rcases inside with rfl | rfl | rfl
    · cases literal
    · cases literal
    · exact (Kind.numericLiteral.inj literal).symm
  have isText : Json.Scanner.idle.scan? (Json.realText 1.5).toList =
      some [.number (some (.real 1.5))] := by
    decide +kernel
  have readBack : Json.ofText? (Json.realText 1.5) = some (.number (.real 1.5)) :=
    Json.Number.isReadBack_of_isText (n := .real 1.5) isText
  refine ⟨shallow, readBack, ofText_compact call shallow (fun inner inside x literal => ?_)
    fun inner inside x literal _ => ?_⟩
  · rw [literals inner inside x literal]
    decide +kernel
  · rw [literals inner inside x literal]
    exact readBack

end Node

end Resumable
