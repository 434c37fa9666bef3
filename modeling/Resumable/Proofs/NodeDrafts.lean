import Resumable.Proofs.Decoding

/-!
# Nodes from drafts

A node inside another one is decoded from a value, and the root from a draft of which only the span is
decoded as it is.  Both come down to the values of drafts: the members have to be readable, and the form,
the span and the fields that are looked for among them make up the node (`decode_object_eq_ok_iff`,
`ofDraft_object_eq_ok_iff_standFor`).
-/

namespace Resumable

open Json (Fault Draft)

/-! ## Lists related item by item -/

theorem exists_forall₂_iff {α β : Type} {R : α → β → Prop} {as : List α} :
    (∃ bs, List.Forall₂ R as bs) ↔ ∀ a ∈ as, ∃ b, R a b := by
  induction as with
  | nil => exact ⟨fun _ => List.forall_mem_nil _, fun _ => ⟨[], .nil⟩⟩
  | cons a as ih =>
    rw [List.forall_mem_cons, ← ih]
    constructor
    · rintro ⟨_, _ | ⟨first, others⟩⟩
      exact ⟨⟨_, first⟩, _, others⟩
    · rintro ⟨⟨_, first⟩, _, others⟩
      exact ⟨_, .cons first others⟩

theorem forall₂_comp_iff {α β γ : Type} {R : α → β → Prop} {S : β → γ → Prop} {as : List α}
    {cs : List γ} : (∃ bs, List.Forall₂ R as bs ∧ List.Forall₂ S bs cs) ↔
      List.Forall₂ (fun a c => ∃ b, R a b ∧ S b c) as cs := by
  constructor
  · rintro ⟨bs, first, second⟩
    induction first generalizing cs with
    | nil =>
      cases second
      exact .nil
    | cons related _ ih =>
      obtain ⟨c, cs, related', rest, rfl⟩ := List.forall₂_cons_left_iff.1 second
      exact .cons ⟨_, related, related'⟩ (ih rest)
  · intro related
    induction related with
    | nil => exact ⟨[], .nil, .nil⟩
    | cons related _ ih =>
      obtain ⟨b, first, second⟩ := related
      obtain ⟨bs, firsts, seconds⟩ := ih
      exact ⟨b :: bs, .cons first firsts, .cons second seconds⟩

theorem forall₂_replace {α β : Type} {R : α → β → Prop} {before after : List α} {a a' : α} {bs : List β}
    (related : List.Forall₂ R (before ++ a :: after) bs) (same : ∀ b, R a b → R a' b) :
    List.Forall₂ R (before ++ a' :: after) bs := by
  induction before generalizing bs with
  | nil =>
    obtain ⟨b, bs, first, rest, rfl⟩ := List.forall₂_cons_left_iff.1 related
    exact .cons (same b first) rest
  | cons _ before ih =>
    obtain ⟨b, bs, first, rest, rfl⟩ := List.forall₂_cons_left_iff.1 related
    exact .cons first (ih rest)

/-! ## The values of drafts -/

namespace Json.Draft

variable {α : Type} {levels : Nat} {f : Json → Except Fault α} {d : Draft} {a : α}

/-- What is decoded from the value of a draft. -/
def decode (levels : Nat) (f : Json → Except Fault α) (d : Draft) : Except Fault α :=
  match d.value? levels with
  | some v => f v
  | none => .error .malformed

theorem decode_eq_ok_iff :
    d.decode levels f = .ok a ↔ ∃ v, d.value? levels = some v ∧ f v = .ok a := by
  rw [decode]
  cases d.value? levels <;> simp

theorem decode_object_eq_ok_iff {members : List (Option String × Draft)} {closed : Bool} :
    (object members closed).decode levels f = .ok a ↔ closed = true ∧ 0 < levels ∧ ∃ values,
      List.Forall₂ (HoldsMember (levels - 1)) members values ∧ f (.object values) = .ok a := by
  simp only [decode_eq_ok_iff, value?_object_eq_some_iff]
  constructor
  · rintro ⟨_, ⟨isClosed, room, values, rfl, held⟩, decoded⟩
    exact ⟨isClosed, room, values, held, decoded⟩
  · rintro ⟨isClosed, room, values, held, decoded⟩
    exact ⟨_, ⟨isClosed, room, values, rfl, held⟩, decoded⟩

theorem decode_array_eq_ok_iff {items : List Draft} {closed : Bool} :
    (array items closed).decode levels f = .ok a ↔ closed = true ∧ 0 < levels ∧ ∃ values,
      List.Forall₂ (fun item v => item.value? (levels - 1) = some v) items values ∧
        f (.array values) = .ok a := by
  simp only [decode_eq_ok_iff, value?_array_eq_some_iff]
  constructor
  · rintro ⟨_, ⟨isClosed, room, values, rfl, held⟩, decoded⟩
    exact ⟨isClosed, room, values, held, decoded⟩
  · rintro ⟨isClosed, room, values, held, decoded⟩
    exact ⟨_, ⟨isClosed, room, values, rfl, held⟩, decoded⟩

/-- The member has a name and a value that does not nest deeper. -/
def IsReadable (levels : Nat) (member : Option String × Draft) : Prop :=
  member.1.isSome = true ∧ (member.2.value? levels).isSome = true

theorem exists_values_iff {members : List (Option String × Draft)} :
    (∃ values, List.Forall₂ (HoldsMember levels) members values) ↔
      ∀ member ∈ members, IsReadable levels member := by
  simp only [exists_forall₂_iff, HoldsMember, IsReadable, Option.isSome_iff_exists, Prod.exists,
    exists_and_left, exists_and_right]

theorem isSome_value?_object {members : List (Option String × Draft)} {closed : Bool} :
    ((object members closed).value? levels).isSome = true ↔
      closed = true ∧ 0 < levels ∧ ∀ member ∈ members, IsReadable (levels - 1) member := by
  simp only [Option.isSome_iff_exists, value?_object_eq_some_iff, exists_and_left, ← exists_values_iff]
  exact and_congr_right fun _ => and_congr_right fun _ =>
    ⟨fun ⟨_, values, _, held⟩ => ⟨values, held⟩, fun ⟨values, held⟩ => ⟨_, values, rfl, held⟩⟩

theorem isSome_value?_array {items : List Draft} {closed : Bool} :
    ((array items closed).value? levels).isSome = true ↔
      closed = true ∧ 0 < levels ∧ ∀ item ∈ items, (item.value? (levels - 1)).isSome = true := by
  simp only [Option.isSome_iff_exists, value?_array_eq_some_iff, exists_and_left, ← exists_forall₂_iff]
  exact and_congr_right fun _ => and_congr_right fun _ =>
    ⟨fun ⟨_, values, _, held⟩ => ⟨values, held⟩, fun ⟨values, held⟩ => ⟨_, values, rfl, held⟩⟩

end Json.Draft

theorem Sought.congr {α α' β ε : Type} {decode : α → Except ε β} {decode' : α' → Except ε β}
    {old new : Option β} {found : List α} {found' : List α'}
    (same : List.Forall₂ (fun a a' => decode a = decode' a') found found') :
    Sought decode old new found ↔ Sought decode' old new found' := by
  induction same generalizing old with
  | nil => rw [sought_nil, sought_nil]
  | cons first _ ih => simp only [sought_cons, first, ih]

/-! ## Members of a node -/

namespace Node

variable {levels : Nat} {members members' : List (Option String × Draft)}

/-- The members stand for a node of that form with those fields. -/
structure Parts (levels : Nat) (members : List (Option String × Draft)) (form : Form)
    (get : String → Option (FieldValue Node)) : Prop where
  isForm : Sought (Draft.decode levels Form.ofJson) none (some form) (valuesOf (some "kind") members)
  absent : ∀ name, form.shapes.lookup name = none → get name = none
  fields : ∀ name shape, form.shapes.lookup name = some shape →
    Sought (Draft.decode levels (fieldOfJson shape)) none (get name) (valuesOf (some name) members)

/-- The members stand for that node. The fault is the one of a span with too many ends. -/
def StandFor (overlong : Nat → Fault) (levels : Nat) (members : List (Option String × Draft))
    (node : Node) : Prop :=
  ∃ span? form get kind, Sought (Span.ofDraft overlong) none span? (valuesOf (some "span") members) ∧
    Parts levels members form get ∧ (form.record : Record Node (Kind Node)).build get = .ok kind ∧
    Node.mk (span?.getD .synthetic) kind = node

theorem forall₂_valuesOf {values : List (String × Json)}
    (held : List.Forall₂ (Draft.HoldsMember levels) members values) (name : String) :
    List.Forall₂ (fun d v => d.value? levels = some v) (valuesOf (some name) members)
      (valuesOf name values) := by
  induction held with
  | nil => exact .nil
  | @cons member value _ _ first _ ih =>
    obtain ⟨named, holds⟩ := first
    rw [valuesOf_cons, valuesOf_cons, named]
    by_cases same : value.1 = name
    · rw [if_pos same, if_pos (congrArg some same)]
      exact .cons holds ih
    · rw [if_neg same, if_neg fun same' => same (Option.some.inj same')]
      exact ih

/-- The node with that span is made up of the parts that the members stand for. -/
theorem ofMembers_eq_ok_iff_parts {span : Span} {values : List (String × Json)} {node : Node}
    (held : ∀ name ≠ "span", List.Forall₂ (fun d v => d.value? levels = some v)
      (valuesOf (some name) members) (valuesOf name values)) :
    ofMembers span values = .ok node ↔ ∃ form get kind, Parts levels members form get ∧
      (form.record : Record Node (Kind Node)).build get = .ok kind ∧ Node.mk span kind = node := by
  have sought {β : Type} (f : Json → Except Fault β) (new : Option β) {name : String}
      (other : name ≠ "span") : Sought (Draft.decode levels f) none new (valuesOf (some name) members) ↔
        Sought f none new (valuesOf name values) :=
    Sought.congr ((held name other).imp fun d v value => by rw [Draft.decode, value])
  have notSpan {form : Form} {name : String} {shape : FieldShape}
      (known : form.shapes.lookup name = some shape) : name ≠ "span" := by
    rintro rfl
    rw [Form.lookup_span] at known
    cases known
  rw [ofMembers_eq_ok_iff]
  refine exists_congr fun form => exists_congr fun get => exists_congr fun kind => ?_
  rw [← and_assoc]
  refine and_congr_left fun _ => ⟨fun ⟨isForm, fields⟩ => ⟨?_, fun name => (fields name).1, ?_⟩,
    fun parts => ⟨?_, fun name => ⟨parts.absent name, ?_⟩⟩⟩
  · exact (sought _ _ (by decide)).2 isForm
  · exact fun name shape known => (sought _ _ (notSpan known)).2 ((fields name).2 shape known)
  · exact (sought _ _ (by decide)).1 parts.isForm
  · exact fun shape known => (sought _ _ (notSpan known)).1 (parts.fields name shape known)

/-- A node inside another one is decoded from an object with readable members. -/
theorem decode_object_eq_ok_iff {closed : Bool} {node : Node} :
    (Draft.object members closed).decode levels ofJson = .ok node ↔
      closed = true ∧ 0 < levels ∧ (∀ member ∈ members, Draft.IsReadable (levels - 1) member) ∧
      StandFor (.invalidLength · "2 elements in sequence") (levels - 1) members node := by
  have each {values : List (String × Json)}
      (held : List.Forall₂ (Draft.HoldsMember (levels - 1)) members values) :
      ofJson (.object values) = .ok node ↔
        StandFor (.invalidLength · "2 elements in sequence") (levels - 1) members node := by
    have span (span? : Option Span) : Sought Span.ofJson none span? (valuesOf "span" values) ↔
        Sought (Span.ofDraft (.invalidLength · "2 elements in sequence")) none span?
          (valuesOf (some "span") members) :=
      (Sought.congr ((forall₂_valuesOf held "span").imp fun d v value =>
        (congrArg (Span.ofDraft _) (Draft.draft_of_value? value)).symm)).symm
    simp only [ofJson_object_eq_ok_iff, span, StandFor, exists_and_left,
      ofMembers_eq_ok_iff_parts fun name _ => forall₂_valuesOf held name]
  rw [Draft.decode_object_eq_ok_iff, ← Draft.exists_values_iff]
  refine and_congr_right fun _ => and_congr_right fun _ => ?_
  constructor
  · rintro ⟨values, held, decoded⟩
    exact ⟨⟨values, held⟩, (each held).1 decoded⟩
  · rintro ⟨⟨values, held⟩, made⟩
    exact ⟨values, held, (each held).2 made⟩

theorem decode_node_eq_ok_iff {d : Draft} {node : Node} :
    d.decode levels (fieldOfJson .node) = .ok (.node node) ↔ d.decode levels ofJson = .ok node := by
  simp only [Draft.decode_eq_ok_iff, fieldOfJson, Json.map_eq_ok, FieldValue.node.injEq, exists_eq_right]

/-- Nodes are decoded from an array, each of them from its item. -/
theorem decode_items_eq_ok_iff {items : List Draft} {closed : Bool} {field : FieldValue Node} :
    (Draft.array items closed).decode levels (fieldOfJson .nodes) = .ok field ↔
      closed = true ∧ 0 < levels ∧ ∃ nodes,
        List.Forall₂ (fun item node => item.decode (levels - 1) ofJson = .ok node) items nodes ∧
        FieldValue.nodes nodes = field := by
  rw [Draft.decode_array_eq_ok_iff]
  simp only [Draft.decode_eq_ok_iff, ← forall₂_comp_iff]
  refine and_congr_right fun _ => and_congr_right fun _ => ?_
  constructor
  · rintro ⟨values, held, isField⟩
    obtain ⟨nodes, decoded, rfl⟩ := Json.map_eq_ok.1 isField
    exact ⟨nodes, ⟨values, held, ofItems_eq_ok_iff.1 decoded⟩, rfl⟩
  · rintro ⟨nodes, ⟨values, held, decoded⟩, rfl⟩
    exact ⟨values, held, Json.map_eq_ok.2 ⟨nodes, ofItems_eq_ok_iff.2 decoded, rfl⟩⟩

/-- The root is decoded from an object of which only the span need not be readable. -/
theorem ofDraft_object_eq_ok_iff_standFor {closed : Bool} {node : Node} :
    ofDraft (.object members closed) = .ok node ↔ closed = true ∧
    (∀ member ∈ members, member.1 ≠ some "span" → Draft.IsReadable (maxNesting - 1) member) ∧
      StandFor (fun _ => .malformed) (maxNesting - 1) members node := by
  have each {values : List (String × Json)} (held : List.Forall₂ (Draft.HoldsMember (maxNesting - 1))
      (members.filter (·.1 ≠ some "span")) values) (span : Span) :
      ofMembers span values = .ok node ↔ ∃ form get kind, Parts (maxNesting - 1) members form get ∧
        (form.record : Record Node (Kind Node)).build get = .ok kind ∧ Node.mk span kind = node := by
    refine ofMembers_eq_ok_iff_parts fun name other => ?_
    have kept : valuesOf (some name) (members.filter (·.1 ≠ some "span")) =
        valuesOf (some name) members := by
      rw [valuesOf, List.filter_filter]
      refine congrArg (List.map Prod.snd) (List.filter_congr fun member _ => ?_)
      by_cases same : member.1 = some name <;> simp [same, other]
    exact kept ▸ forall₂_valuesOf held name
  have readable : (∀ member ∈ members, member.1 ≠ some "span" → Draft.IsReadable (maxNesting - 1) member) ↔
      ∀ member ∈ members.filter (·.1 ≠ some "span"), Draft.IsReadable (maxNesting - 1) member := by
    simp only [List.mem_filter, decide_eq_true_eq, and_imp]
  rw [ofDraft_object_eq_ok_iff, readable, ← Draft.exists_values_iff]
  refine and_congr_right fun _ => ?_
  constructor
  · rintro ⟨span?, values, sought, held, decoded⟩
    obtain ⟨form, get, kind, made⟩ := (each held _).1 decoded
    exact ⟨⟨values, held⟩, span?, form, get, kind, sought, made⟩
  · rintro ⟨⟨values, held⟩, span?, form, get, kind, sought, made⟩
    exact ⟨span?, values, sought, held, (each held _).2 ⟨form, get, kind, made⟩⟩

end Node

end Resumable
