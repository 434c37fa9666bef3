import Resumable.Command.Run
import Resumable.Proofs.Layout
import Resumable.Proofs.NumberTexts
import Resumable.Proofs.RoundTrip
import Resumable.Proofs.Traversal

/-!
# When indented texts are read back

The indented text of a tree is always JSON.  It is decoded to a tree only if its containers do not nest
too deep for the decoder and a number is read from the text of each numeric literal, and then it is
decoded to the tree with those numbers in its literals (`Node.reread_toJson`).  So it is decoded to the
tree itself exactly if every literal is read back (`Node.ofText_pretty_iff`), and that is when the text
that the command emits for a lowered tree is decoded to this tree again (`Command.ofText_process_iff`).
Neither is so for every input (`Command.ofText_process_ne`): a lowered body stands deeper than it stood,
and not every number is read back.
-/

namespace Resumable

open Json (Fault Draft)

open Build

/-! ## Nesting -/

namespace Json

variable {levels : Nat}

theorem nesting_array_le {items : List Json} (each : ∀ item ∈ items, item.nesting ≤ levels) :
    (Json.array items).nesting ≤ levels + 1 := by
  rw [nesting]
  refine Nat.succ_le_succ ?_
  induction items with
  | nil => exact Nat.zero_le _
  | cons item rest ih =>
    obtain ⟨first, others⟩ := List.forall_mem_cons.1 each
    exact Nat.max_le.2 ⟨first, ih others⟩

theorem nesting_object_le {members : List (String × Json)}
    (each : ∀ member ∈ members, member.2.nesting ≤ levels) : (Json.object members).nesting ≤ levels + 1 := by
  rw [nesting]
  refine Nat.succ_le_succ ?_
  induction members with
  | nil => exact Nat.zero_le _
  | cons member rest ih =>
    obtain ⟨first, others⟩ := List.forall_mem_cons.1 each
    exact Nat.max_le.2 ⟨first, ih others⟩

/-- The strict reading of the draft of a value succeeds only if it does not nest too deep. -/
theorem nesting_le_of_value? {v : Json} (readable : (v.draft.value? levels).isSome = true) :
    v.nesting ≤ levels := by
  induction v using inductionOn generalizing levels with
  | null | boolean | number | string => exact Nat.zero_le _
  | array items ih =>
    rw [draft_array, Draft.isSome_value?_array, List.forall_mem_map] at readable
    obtain ⟨-, room, each⟩ := readable
    have below := nesting_array_le fun item mem => ih item mem (each item mem)
    omega
  | object members ih =>
    rw [draft_object, Draft.isSome_value?_object, List.forall_mem_map] at readable
    obtain ⟨-, room, each⟩ := readable
    have below := nesting_object_le fun member mem => ih member mem (each member mem).2
    omega

/-! ## Numbers -/

/-- The binary number that is read from the text of one, if a number is read at all. -/
def rereadReal? (x : Float) : Option Float :=
  match (Number.real x).reread with
  | .number (some n) => some n.toFloat
  | _ => none

theorem reread_of_rereadReal? {x y : Float} (number : rereadReal? x = some y) :
    (Number.real x).reread = .number (some (.real y)) := by
  rw [rereadReal?] at number
  obtain ⟨-, isNull | ⟨y?, isNumber⟩⟩ := Number.reread_real x
  · rw [isNull] at number
    cases number
  · rw [isNumber] at number ⊢
    cases y? with
    | none => cases number
    | some y' =>
      obtain rfl : y' = y := Option.some.inj number
      rfl

theorem isReadBack_real_iff {x : Float} : (Number.real x).IsReadBack ↔ rereadReal? x = some x := by
  rw [Number.isReadBack_iff (Number.reread_real x).1]
  refine ⟨fun isNumber => ?_, reread_of_rereadReal?⟩
  rw [rereadReal?, isNumber]
  rfl

end Json

/-! ## Trees with other literals -/

/-- The value with another number. -/
def FieldValue.withReals {ρ : Type} (f : Float → Float) : FieldValue ρ → FieldValue ρ
  | .number x => .number (f x)
  | value => value

namespace Kind

variable {ρ : Type}

/-- The kind with another number, if it is a numeric literal. -/
def withReals (f : Float → Float) : Kind ρ → Kind ρ
  | .numericLiteral x => .numericLiteral (f x)
  | kind => kind

theorem form_withReals (f : Float → Float) (kind : Kind ρ) : (kind.withReals f).form = kind.form := by
  cases kind <;> rfl

theorem children_withReals (f : Float → Float) (kind : Kind ρ) :
    (kind.withReals f).children = kind.children := by
  cases kind <;> rfl

theorem fields_withReals (f : Float → Float) (kind : Kind ρ) :
    (kind.withReals f).fields = kind.fields.map fun field => (field.1, field.2.withReals f) := by
  cases kind <;> rfl

end Kind

namespace Node

variable {f : Float → Float} {levels : Nat}

/-- The tree with other numbers in its literals. -/
def withReals (f : Float → Float) (node : Node) : Node :=
  node.para fun node parts => ⟨node.span, (parts.map (·.2)).withReals f⟩

theorem withReals_eq (f : Float → Float) (node : Node) :
    node.withReals f = ⟨node.span, (node.kind.map (withReals f)).withReals f⟩ := by
  rw [withReals, para_eq]
  simp only [Kind.map_map]
  rfl

/-- A numeric literal of the tree has that number. -/
def HasLiteral (node : Node) (x : Float) : Prop := ∃ inner ∈ node.subtree, inner.kind = .numericLiteral x

theorem hasLiteral_iff {node : Node} {x : Float} : node.HasLiteral x ↔
    node.kind = .numericLiteral x ∨ ∃ child ∈ node.children, child.HasLiteral x := by
  constructor
  · rintro ⟨inner, inside, literal⟩
    rcases mem_subtree_iff.1 inside with rfl | ⟨child, isChild, inside⟩
    · exact .inl literal
    · exact .inr ⟨child, isChild, inner, inside, literal⟩
  · rintro (literal | ⟨child, isChild, inner, inside, literal⟩)
    · exact ⟨node, self_mem_subtree node, literal⟩
    · exact ⟨inner, mem_subtree_iff.2 (.inr ⟨child, isChild, inside⟩), literal⟩

/-- A tree is changed if one of its literals is. -/
theorem eq_of_withReals_eq_self {node : Node} (same : node.withReals f = node) :
    ∀ x, node.HasLiteral x → f x = x := by
  induction node using inductionOn with
  | step node ih =>
    intro x has
    rw [withReals_eq] at same
    have kind : (node.kind.map (withReals f)).withReals f = node.kind := congrArg Node.kind same
    rcases hasLiteral_iff.1 has with literal | ⟨child, isChild, has⟩
    · rw [literal] at kind
      exact Kind.numericLiteral.inj kind
    · have children : node.children.map (withReals f) = node.children := by
        have children := congrArg Kind.children kind
        rwa [Kind.children_withReals, Kind.children_map] at children
      have same := List.map_inj_left.1 (children.trans (List.map_id _).symm) child isChild
      exact ih child isChild same x has

theorem fieldMembers_withReals (f : Float → Float) (node : Node) : (node.withReals f).fieldMembers =
    node.kind.fields.map fun field =>
      (field.1, (((field.2.map (withReals f)).withReals f).map toJson).toJson) := by
  have kind : (node.withReals f).kind = (node.kind.map (withReals f)).withReals f := by
    rw [withReals_eq]
    rfl
  rw [fieldMembers, kind, Kind.fields_withReals, Kind.fields_map, List.map_map, List.map_map]
  rfl

/-- The value of a field is read with the numbers that are read, if the nodes in it are. -/
theorem reread_field {kind : Kind Node} {field : String × FieldValue Node} (isField : field ∈ kind.fields)
    (literal : ∀ x, kind = .numericLiteral x → Json.rereadReal? x = some (f x))
    (below : ∀ child ∈ kind.children, child.toJson.reread = (child.withReals f).toJson.draft) :
    (field.2.map toJson).toJson.reread =
      (((field.2.map (withReals f)).withReals f).map toJson).toJson.draft := by
  obtain ⟨name, value⟩ := field
  rw [Kind.children_eq_fields, List.forall_mem_flatMap] at below
  have inside := below _ isField
  cases value with
  | node v => exact inside v (.head _)
  | optionalNode v =>
    cases v with
    | none => rfl
    | some v => exact inside v (.head _)
  | nodes vs =>
    change (Json.array (vs.map toJson)).reread = (Json.array ((vs.map (withReals f)).map toJson)).draft
    rw [Json.reread_array, Json.draft_array, List.map_map, List.map_map, List.map_map]
    congr 1
    exact List.map_congr_left inside
  | number x => exact Json.reread_of_rereadReal? (literal x (kind_of_number isField))
  | optionalText s => cases s <;> rfl
  | text | flag | binaryOperator | unaryOperator | updateOperator => rfl

theorem reread_span (span : Span) : span.toJson.reread = span.toJson.draft := by
  refine Json.reread_eq_draft fun n mem => ?_
  have words : span.toJson.numbers = [.integer span.start.toNat, .integer span.stop.toNat] := rfl
  rw [words, List.mem_pair] at mem
  rcases mem with rfl | rfl <;> exact Json.Number.isReadBack_word _

/-- The data form of a tree is read as that of the tree with the numbers that are read in its
literals. -/
theorem reread_toJson {node : Node} (reads : ∀ x, node.HasLiteral x → Json.rereadReal? x = some (f x)) :
    node.toJson.reread = (node.withReals f).toJson.draft := by
  induction node using inductionOn with
  | step node ih =>
    have below (child : Node) (isChild : child ∈ node.children) :
        child.toJson.reread = (child.withReals f).toJson.draft :=
      ih child isChild fun x has => reads x (hasLiteral_iff.2 (.inr ⟨child, isChild, has⟩))
    have literal (x : Float) (isLiteral : node.kind = .numericLiteral x) :=
      reads x (hasLiteral_iff.2 (.inl isLiteral))
    have span : (node.withReals f).span = node.span := by rw [withReals_eq]; rfl
    have form : (node.withReals f).form = node.form := by
      rw [withReals_eq]
      exact (Kind.form_withReals f _).trans (Kind.form_map _ _)
    have spans : (if node.span = .synthetic then [] else [("span", node.span.toJson)]).map
        (fun member => (some member.1, member.2.reread)) =
          (if node.span = .synthetic then [] else [("span", node.span.toJson)]).map
            fun member => (some member.1, member.2.draft) := by
      split
      · rfl
      · rw [List.map_singleton, List.map_singleton, reread_span]
    have fields : node.fieldMembers.map (fun member => (some member.1, member.2.reread)) =
        (node.withReals f).fieldMembers.map fun member => (some member.1, member.2.draft) := by
      rw [fieldMembers_withReals, fieldMembers, List.map_map, List.map_map]
      apply List.map_congr_left
      intro field isField
      exact congrArg (Prod.mk (some field.1)) (reread_field isField literal below)
    rw [toJson_members, toJson_members, Json.reread_object, Json.draft_object, span, form,
      List.map_append, List.map_append, List.map_cons, List.map_cons, spans, fields]
    rfl

/-! ## What is decoded -/

/-- The members of the data form of a node as they are read. -/
def rereadMembers (node : Node) : List (Option String × Draft) :=
  ((if node.span = .synthetic then [] else [("span", node.span.toJson)]) ++
    ("kind", Json.string node.form.name) :: node.fieldMembers).map fun member =>
      (some member.1, member.2.reread)

theorem reread_toJson_members (node : Node) :
    node.toJson.reread = .object node.rereadMembers true := by
  rw [toJson_members, Json.reread_object]
  rfl

variable {overlong : Nat → Fault} {node result : Node}

/-- If a node is decoded, all its fields are. -/
theorem exists_field_of_standFor (made : StandFor overlong levels node.rereadMembers result) :
    ∀ field ∈ node.kind.fields, ∃ b,
      (field.2.map toJson).toJson.reread.decode levels (fieldOfJson field.2.shape) = .ok b := by
  obtain ⟨_, form, get, _, -, parts, -⟩ := made
  have hasForm : HasForm node.rereadMembers node.form := by
    refine ⟨.string node.form.name, ?_, node.form.ofJson_name⟩
    exact List.mem_map.2 ⟨("kind", .string node.form.name), by simp, rfl⟩
  obtain rfl := parts.form_eq hasForm
  intro field isField
  have among : (some field.1, (field.2.map toJson).toJson.reread) ∈ node.rereadMembers := by
    refine List.mem_map.2 ⟨(field.1, (field.2.map toJson).toJson), ?_, rfl⟩
    exact List.mem_append_right _ (.tail _ (List.mem_map.2 ⟨field, isField, rfl⟩))
  have found : (field.2.map toJson).toJson.reread ∈ valuesOf (some field.1) node.rereadMembers :=
    List.mem_map.2 ⟨_, List.mem_filter.2 ⟨among, decide_eq_true rfl⟩, rfl⟩
  rcases parts.fields field.1 _ (node.lookup_shapes isField) with ⟨none, -⟩ | ⟨-, d, b, only, decoded, -⟩
  · rw [none] at found
    cases found
  · rw [only, List.mem_singleton] at found
    exact ⟨b, found ▸ decoded⟩

/-- If a field is decoded, the nodes in it are. -/
theorem exists_node_of_field {value : FieldValue Node} {b : FieldValue Node}
    (decoded : (value.map toJson).toJson.reread.decode levels (fieldOfJson value.shape) = .ok b) :
    ∀ child ∈ value.children, ∃ levels result,
      child.toJson.reread.decode levels ofJson = .ok result := by
  intro child inside
  cases value with
  | node v =>
    obtain rfl := List.mem_singleton.1 inside
    obtain ⟨w, value, isNode⟩ := Draft.decode_eq_ok_iff.1 decoded
    obtain ⟨result, decoded, -⟩ := Json.map_eq_ok.1 isNode
    exact ⟨levels, result, Draft.decode_eq_ok_iff.2 ⟨w, value, decoded⟩⟩
  | optionalNode v =>
    obtain rfl : v = some child := Option.mem_toList.1 inside
    change child.toJson.reread.decode levels (fieldOfJson .optionalNode) = .ok b at decoded
    rw [reread_toJson_members] at decoded ⊢
    obtain ⟨isClosed, room, values, held, isNode⟩ := Draft.decode_object_eq_ok_iff.1 decoded
    obtain ⟨result, decoded, -⟩ := Json.map_eq_ok.1 isNode
    exact ⟨levels, result, Draft.decode_object_eq_ok_iff.2 ⟨isClosed, room, values, held, decoded⟩⟩
  | nodes vs =>
    change (Json.array (vs.map toJson)).reread.decode levels (fieldOfJson .nodes) = .ok b at decoded
    rw [Json.reread_array, decode_items_eq_ok_iff] at decoded
    obtain ⟨-, -, nodes, held, -⟩ := decoded
    have isItem : child.toJson.reread ∈ (vs.map toJson).map Json.reread :=
      List.mem_map_of_mem (List.mem_map_of_mem inside)
    exact ⟨levels - 1, exists_forall₂_iff.1 ⟨nodes, held⟩ _ isItem⟩
  | text | optionalText | flag | number | binaryOperator | unaryOperator | updateOperator => cases inside

/-- If the number of a literal is decoded, a number is read from its text. -/
theorem isSome_rereadReal? {x : Float} {b : FieldValue Node}
    (decoded : (Json.number (.real x)).reread.decode levels (fieldOfJson .number) = .ok b) :
    (Json.rereadReal? x).isSome = true := by
  have same : (Json.number (.real x)).reread = (Json.Number.real x).reread := by rw [Json.reread]
  rw [same] at decoded
  rw [Json.rereadReal?]
  obtain ⟨-, isNull | ⟨y?, isNumber⟩⟩ := Json.Number.reread_real x
  · rw [isNull] at decoded
    cases decoded
  · rw [isNumber] at decoded ⊢
    cases y? with
    | none => cases decoded
    | some y => rfl

/-- If a tree is decoded, a number is read from the text of each literal. -/
theorem isSome_of_standFor (made : StandFor overlong levels node.rereadMembers result)
    (below : ∀ child ∈ node.children, ∀ levels result,
      child.toJson.reread.decode levels ofJson = .ok result →
        ∀ x, child.HasLiteral x → (Json.rereadReal? x).isSome = true) :
    ∀ x, node.HasLiteral x → (Json.rereadReal? x).isSome = true := by
  intro x has
  have fields := exists_field_of_standFor made
  rcases hasLiteral_iff.1 has with literal | ⟨child, isChild, has⟩
  · have isField : ("value", .number x) ∈ node.kind.fields := by rw [literal]; exact .head _
    obtain ⟨b, decoded⟩ := fields _ isField
    exact isSome_rereadReal? decoded
  · have inside := isChild
    rw [children, Kind.children_eq_fields] at inside
    obtain ⟨field, isField, inside⟩ := List.mem_flatMap.1 inside
    obtain ⟨b, decoded⟩ := fields field isField
    obtain ⟨levels, result, decoded⟩ := exists_node_of_field decoded child inside
    exact below child isChild levels result decoded x has

theorem isSome_of_decode (decoded : node.toJson.reread.decode levels ofJson = .ok result) :
    ∀ x, node.HasLiteral x → (Json.rereadReal? x).isSome = true := by
  induction node using inductionOn generalizing levels result with
  | step node ih =>
    rw [reread_toJson_members, decode_object_eq_ok_iff] at decoded
    exact isSome_of_standFor decoded.2.2.2 fun child isChild levels result decoded =>
      ih child isChild decoded

theorem isSome_of_ofDraft (decoded : ofDraft node.toJson.reread = .ok result) :
    ∀ x, node.HasLiteral x → (Json.rereadReal? x).isSome = true := by
  rw [reread_toJson_members, ofDraft_object_eq_ok_iff_standFor] at decoded
  exact isSome_of_standFor decoded.2.2 fun child _ levels result => isSome_of_decode

/-- A data form that is decoded does not nest too deep. -/
theorem nesting_le_of_ofDraft (decoded : ofDraft node.toJson.draft = .ok result) :
    node.toJson.nesting ≤ maxNesting := by
  rw [toJson_members] at decoded ⊢
  rw [Json.draft_object, ofDraft_object_eq_ok_iff_standFor] at decoded
  apply Json.nesting_object_le
  intro member mem
  change member.2.nesting ≤ maxNesting - 1
  rcases List.mem_append.1 mem with isSpan | other
  · split at isSpan
    · cases isSpan
    · obtain rfl := List.mem_singleton.1 isSpan
      have span : node.span.toJson.nesting = 1 := rfl
      rw [span]
      decide
  · have notSpan : member.1 ≠ "span" := fun same =>
      node.span_not_mem_members (same ▸ List.mem_map_of_mem other)
    have readable := decoded.2.1 _ (List.mem_map_of_mem mem) fun same => notSpan (Option.some.inj same)
    exact Json.nesting_le_of_value? readable.2

/-! ## Whole texts -/

theorem ofText_pretty (node : Node) :
    ofText (node.toJson.pretty ++ "\n") = .ok result ↔ ofDraft node.toJson.reread = .ok result := by
  have readable (n : Json.Number) (mem : n ∈ node.toJson.numbers) : n.IsReadable := by
    rcases node.numbers_toJson n mem with ⟨word, rfl⟩ | ⟨_, _, x, _, rfl⟩
    · exact (Json.Number.isReadBack_word word).isReadable
    · exact (Json.Number.reread_real x).1
  exact ofText_eq_ok_iff (Json.read_eq_iff.1 (Json.read_pretty readable))

/-- The text of a tree is decoded to the tree with the numbers that are read in its literals. -/
theorem ofText_pretty_withReals (reads : ∀ x, node.HasLiteral x → Json.rereadReal? x = some (f x))
    (shallow : (node.withReals f).toJson.nesting < 128) :
    ofText (node.toJson.pretty ++ "\n") = .ok (node.withReals f) := by
  rw [ofText_pretty, reread_toJson reads]
  exact ofDraft_toJson _ (Nat.le_of_lt_succ shallow)

/-- A tree is decoded from its indented text exactly if fewer than 128 containers nest in that and each
numeric literal is read back from its own text. -/
theorem ofText_pretty_iff (node : Node) : ofText (node.toJson.pretty ++ "\n") = .ok node ↔
    node.toJson.nesting < 128 ∧
      ∀ x, node.HasLiteral x → Json.ofText? (Json.realText x) = some (.number (.real x)) := by
  rw [ofText_pretty]
  constructor
  · intro decoded
    -- What is decoded is the tree with the numbers that are read in its literals.
    have reads (x : Float) (has : node.HasLiteral x) :
        Json.rereadReal? x = some ((Json.rereadReal? x).getD x) := by
      obtain ⟨y, isReal⟩ := Option.isSome_iff_exists.1 (isSome_of_ofDraft decoded x has)
      rw [isReal, Option.getD_some]
    rw [reread_toJson reads] at decoded
    have shallow := nesting_le_of_ofDraft decoded
    rw [ofDraft_toJson _ shallow] at decoded
    have same := Except.ok.inj decoded
    rw [same] at shallow
    refine ⟨Nat.lt_succ_of_le shallow, fun x has => Json.isReadBack_real_iff.2 ?_⟩
    rw [reads x has, eq_of_withReals_eq_self same x has]
  · rintro ⟨shallow, readBack⟩
    have numbers (n : Json.Number) (mem : n ∈ node.toJson.numbers) : n.IsReadBack := by
      rcases node.numbers_toJson n mem with ⟨word, rfl⟩ | ⟨inner, inside, x, literal, rfl⟩
      · exact Json.Number.isReadBack_word word
      · exact readBack x ⟨inner, inside, literal⟩
    rw [Json.reread_eq_draft numbers]
    exact ofDraft_toJson node (Nat.le_of_lt_succ shallow)

end Node

/-! ## What the command emits -/

namespace Command

/-- The tree that a run of the command emits. -/
def lowered (options : Options) (tree : Node) : Node :=
  (Lowering.runStandard options options.nameSupply #[] tree).tree.getD tree

/-- The text that is emitted for a tree is decoded to the lowered tree exactly if fewer than 128
containers nest in it and each numeric literal of the lowered tree is read back from its own text. -/
theorem ofText_process_iff (options : Options) (tree : Node) :
    Node.ofText (process options .json tree).output = .ok (lowered options tree) ↔
      (lowered options tree).toJson.nesting < 128 ∧ ∀ x, (lowered options tree).HasLiteral x →
        Json.ofText? (Json.realText x) = some (.number (.real x)) :=
  Node.ofText_pretty_iff (lowered options tree)

/-- A block inside that many others. -/
def inBlocks : Nat → Node → Node
  | 0, node => node
  | depth + 1, node => block [inBlocks depth node]

/-- The function `function f() { … yield; … }` with that many blocks around the suspension. -/
def suspendedInBlocks (depth : Nat) : Node :=
  .synthetic (.functionDeclaration (some "f") false []
    (inBlocks depth (block [suspensionStatement none false])))

/-- The texts of a function and of a number that are decoded. What is emitted for the trees is not
decoded to the lowered trees: that of the function nests too deep, and the other number is read from
that of the number. -/
theorem ofText_process_ne :
    let options := Options.standard
    let function := suspendedInBlocks 60
    let literal := number 5.0000000000000004e32
    (Node.ofText (function.toJson.pretty ++ "\n") = .ok function ∧
      Node.ofText (process options .json function).output ≠ .ok (lowered options function)) ∧
    Node.ofText ((number 5e32).toJson.pretty ++ "\n") = .ok literal ∧
      Node.ofText (process options .json literal).output ≠ .ok (lowered options literal) := by
  intro options function literal
  have literals (x y : Float) (has : (number x).HasLiteral y) : y = x := by
    rcases Node.hasLiteral_iff.1 has with isLiteral | ⟨_, isChild, _⟩
    · exact (Kind.numericLiteral.inj isLiteral).symm
    · cases isChild
  refine ⟨⟨?_, fun decoded => ?_⟩, ?_, fun decoded => ?_⟩
  · refine (Node.ofText_pretty_iff function).2 ⟨by decide +kernel, fun x has => ?_⟩
    have other : ∀ inner ∈ function.subtree, inner.form ≠ .numericLiteral := by decide +kernel
    obtain ⟨inner, inside, literal⟩ := has
    exact absurd (congrArg Kind.form literal) (other inner inside)
  · have tooDeep : ¬ (lowered options function).toJson.nesting < 128 := by decide +kernel
    exact tooDeep ((Node.ofText_pretty_iff (lowered options function)).1 decoded).1
  · have reads (x : Float) (has : (number 5e32).HasLiteral x) :
        Json.rereadReal? x = some 5.0000000000000004e32 := by
      rw [literals 5e32 x has]
      decide +kernel
    exact Node.ofText_pretty_withReals reads (by decide)
  · have same : lowered options literal = literal := rfl
    have has : (lowered options literal).HasLiteral 5.0000000000000004e32 :=
      same ▸ Node.hasLiteral_iff.2 (.inl rfl)
    have readBack := ((Node.ofText_pretty_iff (lowered options literal)).1 decoded).2 _ has
    have other : Json.rereadReal? 5.0000000000000004e32 ≠ some 5.0000000000000004e32 := by
      decide +kernel
    exact other (Json.isReadBack_real_iff.1 readBack)

end Command

end Resumable
