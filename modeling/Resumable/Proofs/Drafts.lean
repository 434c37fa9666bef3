import Mathlib.Data.List.Basic
import Mathlib.Data.List.Forall2
import Resumable.Json.Draft

/-!
# Drafts and values

A draft without any fault is the draft of one value (`Draft.draft_of_value?`), and the strict reading
of a draft gives that value back as long as its containers do not nest too deep (`value?_draft`).
-/

namespace Resumable.Json

/-! ## Complete drafts -/

namespace Draft

/-- The rule of induction on drafts. -/
theorem inductionOn {P : Draft → Prop} (missing : P .missing) (null : P .null)
    (boolean : ∀ b, P (.boolean b)) (number : ∀ n, P (.number n)) (string : ∀ s, P (.string s))
    (array : ∀ items closed, (∀ item ∈ items, P item) → P (.array items closed))
    (object : ∀ members closed, (∀ member ∈ members, P member.2) → P (.object members closed))
    (d : Draft) : P d :=
  @Draft.rec P (fun items => ∀ item ∈ items, P item) (fun members => ∀ member ∈ members, P member.2)
    (fun member => P member.2) missing null boolean number string array object (by simp)
    (fun _ _ first rest => List.forall_mem_cons.2 ⟨first, rest⟩) (by simp)
    (fun _ _ first rest => List.forall_mem_cons.2 ⟨first, rest⟩) (fun _ _ value => value) d

theorem allComplete_iff (items : List Draft) :
    allComplete items = true ↔ ∀ item ∈ items, item.isComplete = true := by
  induction items with
  | nil => simp [allComplete]
  | cons item rest ih => simp [allComplete, ih]

theorem allMembersComplete_iff (members : List (Option String × Draft)) :
    allMembersComplete members = true ↔ ∀ member ∈ members, member.2.isComplete = true := by
  induction members with
  | nil => simp [allMembersComplete]
  | cons member rest ih => simp [allMembersComplete, ih]

@[simp] theorem isComplete_array (items : List Draft) (closed : Bool) :
    (Draft.array items closed).isComplete = true ↔
      closed = true ∧ ∀ item ∈ items, item.isComplete = true := by
  rw [isComplete, Bool.and_eq_true, allComplete_iff]

@[simp] theorem isComplete_object (members : List (Option String × Draft)) (closed : Bool) :
    (Draft.object members closed).isComplete = true ↔
      closed = true ∧ ∀ member ∈ members, member.2.isComplete = true := by
  rw [isComplete, Bool.and_eq_true, allMembersComplete_iff]

/-! ## The strict reading -/

variable {levels : Nat} {v : Json}

theorem values?_eq_some_iff {items : List Draft} {values : List Json} :
    values? levels items = some values ↔
      List.Forall₂ (fun item v => item.value? levels = some v) items values := by
  induction items generalizing values with
  | nil =>
    rw [values?, List.forall₂_nil_left_iff, Option.some.injEq]
    exact eq_comm
  | cons item rest ih =>
    simp only [values?, bind, Option.bind_eq_some_iff, List.forall₂_cons_left_iff, ih]
    constructor
    · rintro ⟨v, value, vs, values, ⟨⟩⟩
      exact ⟨v, vs, value, values, rfl⟩
    · rintro ⟨v, vs, value, values, rfl⟩
      exact ⟨v, value, vs, values, rfl⟩

/-- The member has that name and, as long as it does not nest deeper, that value. -/
def HoldsMember (levels : Nat) (member : Option String × Draft) (value : String × Json) : Prop :=
  member.1 = some value.1 ∧ member.2.value? levels = some value.2

theorem memberValues?_eq_some_iff {members : List (Option String × Draft)}
    {values : List (String × Json)} :
    memberValues? levels members = some values ↔ List.Forall₂ (HoldsMember levels) members values := by
  induction members generalizing values with
  | nil =>
    rw [memberValues?, List.forall₂_nil_left_iff, Option.some.injEq]
    exact eq_comm
  | cons member rest ih =>
    simp only [memberValues?, bind, Option.bind_eq_some_iff, List.forall₂_cons_left_iff, ih]
    constructor
    · rintro ⟨key, name, v, value, vs, values, ⟨⟩⟩
      exact ⟨(key, v), vs, ⟨name, value⟩, values, rfl⟩
    · rintro ⟨v, vs, ⟨name, value⟩, values, rfl⟩
      exact ⟨v.1, name, v.2, value, vs, values, rfl⟩

theorem value?_array_eq_some_iff {items : List Draft} {closed : Bool} :
    (Draft.array items closed).value? levels = some v ↔ closed = true ∧ 0 < levels ∧
      ∃ values, v = .array values ∧
        List.Forall₂ (fun item v => item.value? (levels - 1) = some v) items values := by
  rw [value?]
  split
  · rename_i room
    rw [Bool.and_eq_true, decide_eq_true_eq] at room
    simp only [Option.map_eq_some_iff, values?_eq_some_iff, room, true_and]
    exact exists_congr fun values => ⟨fun ⟨each, same⟩ => ⟨same.symm, each⟩,
      fun ⟨same, each⟩ => ⟨each, same.symm⟩⟩
  · rename_i noRoom
    rw [Bool.and_eq_true, decide_eq_true_eq] at noRoom
    exact ⟨nofun, fun ⟨isClosed, room, _⟩ => absurd ⟨isClosed, room⟩ noRoom⟩

theorem value?_object_eq_some_iff {members : List (Option String × Draft)} {closed : Bool} :
    (Draft.object members closed).value? levels = some v ↔ closed = true ∧ 0 < levels ∧
      ∃ values, v = .object values ∧ List.Forall₂ (HoldsMember (levels - 1)) members values := by
  rw [value?]
  split
  · rename_i room
    rw [Bool.and_eq_true, decide_eq_true_eq] at room
    simp only [Option.map_eq_some_iff, memberValues?_eq_some_iff, room, true_and]
    exact exists_congr fun values => ⟨fun ⟨each, same⟩ => ⟨same.symm, each⟩,
      fun ⟨same, each⟩ => ⟨each, same.symm⟩⟩
  · rename_i noRoom
    rw [Bool.and_eq_true, decide_eq_true_eq] at noRoom
    exact ⟨nofun, fun ⟨isClosed, room, _⟩ => absurd ⟨isClosed, room⟩ noRoom⟩

end Draft

/-! ## The drafts of values -/

/-- The rule of induction on values. -/
theorem inductionOn {P : Json → Prop} (null : P .null) (boolean : ∀ b, P (.boolean b))
    (number : ∀ n, P (.number n)) (string : ∀ s, P (.string s))
    (array : ∀ items, (∀ item ∈ items, P item) → P (.array items))
    (object : ∀ members, (∀ member ∈ members, P member.2) → P (.object members)) (v : Json) : P v :=
  @Json.rec P (fun items => ∀ item ∈ items, P item) (fun members => ∀ member ∈ members, P member.2)
    (fun member => P member.2) null boolean number string array object (by simp)
    (fun _ _ first rest => List.forall_mem_cons.2 ⟨first, rest⟩) (by simp)
    (fun _ _ first rest => List.forall_mem_cons.2 ⟨first, rest⟩) (fun _ _ value => value) v

theorem draftItems_eq (items : List Json) : draftItems items = items.map draft := by
  induction items with
  | nil => rfl
  | cons item rest ih => rw [draftItems, ih, List.map_cons]

theorem draftMembers_eq (members : List (String × Json)) :
    draftMembers members = members.map fun member => (some member.1, member.2.draft) := by
  induction members with
  | nil => rfl
  | cons member rest ih => rw [draftMembers, ih, List.map_cons]

theorem draft_array (items : List Json) : (Json.array items).draft = .array (items.map draft) true := by
  rw [draft, draftItems_eq]

theorem draft_object (members : List (String × Json)) : (Json.object members).draft =
    .object (members.map fun member => (some member.1, member.2.draft)) true := by
  rw [draft, draftMembers_eq]

/-- The draft of a value is complete. -/
theorem isComplete_draft (v : Json) : v.draft.isComplete = true := by
  induction v using inductionOn with
  | null | boolean | number | string => rfl
  | array items ih =>
    rw [draft_array, Draft.isComplete_array]
    exact ⟨rfl, List.forall_mem_map.2 ih⟩
  | object members ih =>
    rw [draft_object, Draft.isComplete_object]
    exact ⟨rfl, List.forall_mem_map.2 ih⟩

theorem map_eq_of_forall₂ {α β : Type} {R : α → β → Prop} {f : β → α} {as : List α} {bs : List β}
    (related : List.Forall₂ R as bs) (each : ∀ a ∈ as, ∀ b, R a b → f b = a) : bs.map f = as := by
  induction related with
  | nil => rfl
  | cons first rest ih =>
    obtain ⟨same, others⟩ := List.forall_mem_cons.1 each
    rw [List.map_cons, same _ first, ih others]

/-- A draft with a value is the draft of that value. -/
theorem Draft.draft_of_value? {levels : Nat} {d : Draft} {v : Json} (value : d.value? levels = some v) :
    v.draft = d := by
  induction d using Draft.inductionOn generalizing levels v with
  | missing => cases value
  | null => cases value; rfl
  | boolean b => cases value; rfl
  | number n =>
    obtain ⟨n, rfl, rfl⟩ := Option.map_eq_some_iff.1 value
    rfl
  | string s =>
    obtain ⟨s, rfl, rfl⟩ := Option.map_eq_some_iff.1 value
    rfl
  | array items closed ih =>
    obtain ⟨rfl, -, values, rfl, each⟩ := value?_array_eq_some_iff.1 value
    rw [draft_array, map_eq_of_forall₂ each fun item mem _ value => ih item mem value]
  | object members closed ih =>
    obtain ⟨rfl, -, values, rfl, each⟩ := value?_object_eq_some_iff.1 value
    rw [draft_object, map_eq_of_forall₂ each fun member mem v ⟨name, value⟩ =>
      Prod.ext name.symm (ih member mem value)]

mutual

/-- How deep containers nest in a value. -/
def nesting : Json → Nat
  | .array items => nestingOfItems items + 1
  | .object members => nestingOfMembers members + 1
  | _ => 0

/-- How deep containers nest in the items. -/
def nestingOfItems : List Json → Nat
  | [] => 0
  | item :: rest => max item.nesting (nestingOfItems rest)

/-- How deep containers nest in the members. -/
def nestingOfMembers : List (String × Json) → Nat
  | [] => 0
  | (_, value) :: rest => max value.nesting (nestingOfMembers rest)

end

theorem nesting_item_lt {items : List Json} {item : Json} (mem : item ∈ items) :
    item.nesting < (Json.array items).nesting := by
  rw [nesting, Nat.lt_succ_iff]
  induction mem with
  | head rest => exact Nat.le_max_left _ _
  | tail first _ ih => exact Nat.le_trans ih (Nat.le_max_right _ _)

theorem nesting_member_lt {members : List (String × Json)} {member : String × Json}
    (mem : member ∈ members) : member.2.nesting < (Json.object members).nesting := by
  rw [nesting, Nat.lt_succ_iff]
  induction mem with
  | head rest => exact Nat.le_max_left _ _
  | tail first _ ih => exact Nat.le_trans ih (Nat.le_max_right _ _)

/-- The strict reading of the draft of a value gives the value, unless it nests too deep. -/
theorem value?_draft {levels : Nat} {v : Json} (shallow : v.nesting ≤ levels) :
    v.draft.value? levels = some v := by
  induction v using inductionOn generalizing levels with
  | null | boolean | number | string => rfl
  | array items ih =>
    rw [draft_array, Draft.value?_array_eq_some_iff]
    refine ⟨rfl, by rw [nesting] at shallow; omega, items, rfl, ?_⟩
    rw [List.forall₂_map_left_iff, List.forall₂_same]
    intro item mem
    have deeper := nesting_item_lt mem
    exact ih item mem (by omega)
  | object members ih =>
    rw [draft_object, Draft.value?_object_eq_some_iff]
    refine ⟨rfl, by rw [nesting] at shallow; omega, members, rfl, ?_⟩
    rw [List.forall₂_map_left_iff, List.forall₂_same]
    intro member mem
    have deeper := nesting_member_lt mem
    exact ⟨rfl, ih member mem (by omega)⟩

end Resumable.Json
