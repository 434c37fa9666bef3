import Mathlib.Algebra.Order.BigOperators.Group.List
import Mathlib.Algebra.Order.Group.Nat
import Mathlib.Tactic.Linarith
import Resumable.Text.Substitute

/-!
# Replacing the occurrences of a pattern

A pattern whose first character does not come again in it cannot overlap itself (`IsMarked`), so a text is
cut at the occurrences of the pattern, and replacing them puts the replacement between the same parts
(`substituteFrom_joined`).  Suppose that some occurrences are to be replaced, and the parts of the text
between them are given.  Then `substitute` replaces these and no others exactly if there are no others, or
the pattern is replaced by itself (`substituteFrom_joined_eq_iff`).
-/

namespace Resumable.Text

/-! ## Occurrences -/

/-- How often a pattern that is not empty stands in a text. -/
def occurrences (pattern : List Char) : List Char → Nat
  | [] => 0
  | c :: rest => (if pattern.isPrefixOf (c :: rest) then 1 else 0) + occurrences pattern rest

theorem occurrences_cons (pattern : List Char) (c : Char) (rest : List Char) :
    occurrences pattern (c :: rest) =
      (if pattern.isPrefixOf (c :: rest) then 1 else 0) + occurrences pattern rest := rfl

/-- The first character of the pattern does not come again in it. -/
def IsMarked (pattern : List Char) : Prop := ∃ c rest, pattern = c :: rest ∧ c ∉ rest

variable {pattern replacement : List Char}

/-- What stands in front of an occurrence begins with another one only if it has that one as a whole. -/
theorem IsMarked.isPrefixOf_append (marked : IsMarked pattern) {front : List Char} (ne : front ≠ [])
    (behind : List Char) : pattern.isPrefixOf (front ++ (pattern ++ behind)) = pattern.isPrefixOf front := by
  rw [Bool.eq_iff_iff, List.isPrefixOf_iff_prefix, List.isPrefixOf_iff_prefix]
  constructor
  · intro begins
    rcases Nat.le_total pattern.length front.length with short | long
    · exact List.prefix_of_prefix_length_le begins (List.prefix_append _ _) short
    · obtain ⟨more, split⟩ := List.prefix_of_prefix_length_le (List.prefix_append front _) begins long
      cases more with
      | nil => exact ⟨[], by rw [List.append_nil, ← split, List.append_nil]⟩
      | cons d more =>
        -- The mark of the occurrence behind would stand inside the pattern.
        have next : d :: more <+: pattern ++ behind :=
          (List.prefix_append_right_inj front).1 (split ▸ begins)
        obtain ⟨c, rest, rfl, unique⟩ := marked
        obtain rfl : d = c := (List.cons_prefix_cons.1 next).1
        cases front with
        | nil => exact absurd rfl ne
        | cons e front =>
          obtain ⟨-, rfl⟩ := List.cons.inj split
          exact absurd (List.mem_append_right _ (.head _)) unique
  · exact fun begins => begins.trans (List.prefix_append _ _)

theorem occurrences_append_of_notMem {c : Char} {rest front : List Char} (absent : c ∉ front)
    (behind : List Char) :
    occurrences (c :: rest) (front ++ behind) = occurrences (c :: rest) behind := by
  induction front with
  | nil => rfl
  | cons d front ih =>
    rw [List.mem_cons, not_or] at absent
    have other : List.isPrefixOf (c :: rest) (d :: (front ++ behind)) = false := by
      simp [List.isPrefixOf, absent.1]
    rw [List.cons_append, occurrences_cons, other, ih absent.2]
    exact Nat.zero_add _

/-- An occurrence in the middle of a text counts once, besides those in front of it and behind it. -/
theorem IsMarked.occurrences_append (marked : IsMarked pattern) (front behind : List Char) :
    occurrences pattern (front ++ (pattern ++ behind)) =
      occurrences pattern front + (occurrences pattern behind + 1) := by
  induction front with
  | nil =>
    obtain ⟨c, rest, rfl, unique⟩ := marked
    have begins : List.isPrefixOf (c :: rest) (c :: (rest ++ behind)) = true :=
      List.isPrefixOf_iff_prefix.2 (List.prefix_append (c :: rest) behind)
    rw [List.nil_append, List.cons_append, occurrences_cons, if_pos begins,
      occurrences_append_of_notMem unique]
    simp only [occurrences]
    omega
  | cons d front ih =>
    have same : pattern.isPrefixOf (d :: (front ++ (pattern ++ behind))) = pattern.isPrefixOf (d :: front) :=
      marked.isPrefixOf_append (List.cons_ne_nil d front) behind
    rw [List.cons_append, occurrences_cons, same, ih, occurrences_cons]
    omega

theorem exists_of_occurrences_pos {text : List Char} (pos : 0 < occurrences pattern text) :
    ∃ front behind, text = front ++ (pattern ++ behind) := by
  induction text with
  | nil => cases pos
  | cons c text ih =>
    by_cases begins : pattern.isPrefixOf (c :: text) = true
    · obtain ⟨behind, same⟩ := List.isPrefixOf_iff_prefix.1 begins
      exact ⟨[], behind, same.symm⟩
    · rw [occurrences, if_neg begins, Nat.zero_add] at pos
      obtain ⟨front, behind, rfl⟩ := ih pos
      exact ⟨c :: front, behind, rfl⟩

/-! ## Replacing them -/

theorem substituteFrom_skip (front behind : List Char) :
    substituteFrom pattern replacement front.length (front ++ behind) =
      substituteFrom pattern replacement 0 behind := by
  induction front with
  | nil => rfl
  | cons c front ih =>
    rw [List.length_cons, List.cons_append, substituteFrom, if_pos (Nat.succ_pos _)]
    exact ih

/-- An occurrence in the middle of a text is replaced, whatever is done in front of it and behind it. -/
theorem IsMarked.substituteFrom_append (marked : IsMarked pattern) (front behind : List Char) {skip : Nat}
    (inside : skip ≤ front.length) :
    substituteFrom pattern replacement skip (front ++ (pattern ++ behind)) =
      substituteFrom pattern replacement skip front ++
        (replacement ++ substituteFrom pattern replacement 0 behind) := by
  induction front generalizing skip with
  | nil =>
    obtain rfl : skip = 0 := Nat.le_zero.1 inside
    obtain ⟨c, rest, rfl, -⟩ := marked
    have begins : List.isPrefixOf (c :: rest) (c :: (rest ++ behind)) = true :=
      List.isPrefixOf_iff_prefix.2 (List.prefix_append (c :: rest) behind)
    calc
      _ = replacement ++ substituteFrom (c :: rest) replacement rest.length (rest ++ behind) := if_pos begins
      _ = replacement ++ substituteFrom (c :: rest) replacement 0 behind := by rw [substituteFrom_skip]
  | cons d front ih =>
    rw [List.cons_append, substituteFrom, substituteFrom]
    by_cases skips : 0 < skip
    · rw [if_pos skips, if_pos skips]
      rw [List.length_cons] at inside
      exact ih (by omega)
    · rw [if_neg skips, if_neg skips]
      have same : pattern.isPrefixOf (d :: (front ++ (pattern ++ behind))) =
          pattern.isPrefixOf (d :: front) :=
        marked.isPrefixOf_append (List.cons_ne_nil d front) behind
      rw [same]
      by_cases begins : pattern.isPrefixOf (d :: front) = true
      · rw [if_pos begins, if_pos begins, List.append_assoc]
        have length := (List.isPrefixOf_iff_prefix.1 begins).length_le
        rw [List.length_cons] at length
        rw [ih (by omega)]
      · rw [if_neg begins, if_neg begins, ih (Nat.zero_le _)]
        rfl

theorem substituteFrom_of_absent {text : List Char} (absent : occurrences pattern text = 0) :
    substituteFrom pattern replacement 0 text = text := by
  induction text with
  | nil => rfl
  | cons c text ih =>
    rw [occurrences, Nat.add_eq_zero_iff] at absent
    have begins : ¬ pattern.isPrefixOf (c :: text) = true := fun begins => by
      rw [if_pos begins] at absent
      cases absent.1
    rw [substituteFrom, if_neg (Nat.lt_irrefl 0), if_neg begins, ih absent.2]

/-- A single character is replaced wherever it stands. -/
theorem substituteFrom_singleton (c : Char) (replacement text : List Char) :
    substituteFrom [c] replacement 0 text = text.flatMap fun d => if d = c then replacement else [d] := by
  induction text with
  | nil => rfl
  | cons d text ih =>
    rw [substituteFrom, if_neg (Nat.lt_irrefl 0), List.flatMap_cons, ← ih]
    by_cases same : d = c
    · rw [if_pos (by simp [same]), if_pos same]
      rfl
    · rw [if_neg (by simp [Ne.symm same]), if_neg same]
      rfl

/-! ## Texts cut at some occurrences -/

/-- Parts of a text with a text between any two of them. -/
def joined (between first : List Char) : List (List Char) → List Char
  | [] => first
  | next :: more => first ++ (between ++ joined between next more)

theorem append_joined (between front first : List Char) (more : List (List Char)) :
    front ++ joined between first more = joined between (front ++ first) more := by
  cases more with
  | nil => rfl
  | cons next more => exact (List.append_assoc _ _ _).symm

theorem joined_append (between first next : List Char) (more others : List (List Char)) :
    joined between first more ++ (between ++ joined between next others) =
      joined between first (more ++ next :: others) := by
  induction more generalizing first with
  | nil => rfl
  | cons part more ih =>
    rw [joined, List.append_assoc, List.append_assoc, ih]
    rfl

theorem length_joined (between first : List Char) (more : List (List Char)) :
    (joined between first more).length =
      first.length + (more.map List.length).sum + between.length * more.length := by
  induction more generalizing first with
  | nil => simp [joined]
  | cons next more ih =>
    rw [joined, List.length_append, List.length_append, ih, List.map_cons, List.sum_cons,
      List.length_cons, Nat.mul_succ]
    omega

/-- A text is cut at all occurrences of a pattern. -/
theorem exists_joined (marked : IsMarked pattern) (text : List Char) :
    ∃ first more, text = joined pattern first more ∧ occurrences pattern first = 0 ∧
      ∀ part ∈ more, occurrences pattern part = 0 := by
  induction size : text.length using Nat.strongRecOn generalizing text with
  | ind length ih =>
    rcases Nat.eq_zero_or_pos (occurrences pattern text) with absent | pos
    · exact ⟨text, [], rfl, absent, List.forall_mem_nil _⟩
    · obtain ⟨front, behind, rfl⟩ := exists_of_occurrences_pos pos
      obtain ⟨c, rest, hp, -⟩ := id marked
      have long : 0 < pattern.length := hp ▸ Nat.succ_pos _
      rw [List.length_append, List.length_append] at size
      obtain ⟨first, more, rfl, absent, absents⟩ := ih front.length (by omega) front rfl
      obtain ⟨first', more', rfl, absent', absents'⟩ := ih behind.length (by omega) behind rfl
      refine ⟨first, more ++ first' :: more', joined_append _ _ _ _ _, absent, ?_⟩
      exact List.forall_mem_append.2 ⟨absents, List.forall_mem_cons.2 ⟨absent', absents'⟩⟩

section Joined

variable (marked : IsMarked pattern) (first : List Char) (more : List (List Char))

include marked

theorem occurrences_joined :
    occurrences pattern (joined pattern first more) =
      occurrences pattern first + (more.map (occurrences pattern)).sum + more.length := by
  induction more generalizing first with
  | nil => rfl
  | cons next more ih =>
    rw [joined, marked.occurrences_append, ih, List.map_cons, List.sum_cons, List.length_cons]
    omega

/-- Replacing a pattern replaces it between the parts, and in the parts. -/
theorem substituteFrom_joined :
    substituteFrom pattern replacement 0 (joined pattern first more) =
      joined replacement (substituteFrom pattern replacement 0 first)
        (more.map (substituteFrom pattern replacement 0)) := by
  induction more generalizing first with
  | nil => rfl
  | cons next more ih =>
    rw [joined, marked.substituteFrom_append _ _ (Nat.zero_le _), ih]
    rfl

end Joined

/-! ## What replacing changes -/

theorem joined_substituteFrom_of_absent {first : List Char} {more : List (List Char)}
    (absent : occurrences pattern first = 0) (absents : ∀ part ∈ more, occurrences pattern part = 0) :
    joined replacement (substituteFrom pattern replacement 0 first)
      (more.map (substituteFrom pattern replacement 0)) = joined replacement first more := by
  rw [substituteFrom_of_absent absent,
    List.map_congr_left fun part mem => substituteFrom_of_absent (absents part mem), List.map_id']

theorem occurrences_joined_of_absent (marked : IsMarked pattern) {first : List Char}
    {more : List (List Char)} (absent : occurrences pattern first = 0)
    (absents : ∀ part ∈ more, occurrences pattern part = 0) :
    occurrences pattern (joined pattern first more) = more.length := by
  have nowhere : (more.map (occurrences pattern)).sum = 0 := List.sum_eq_zero fun count mem => by
    obtain ⟨part, isPart, rfl⟩ := List.mem_map.1 mem
    exact absents part isPart
  rw [occurrences_joined marked, absent, nowhere]
  omega

theorem length_substituteFrom (marked : IsMarked pattern) (replacement text : List Char) :
    (substituteFrom pattern replacement 0 text).length + pattern.length * occurrences pattern text =
      text.length + replacement.length * occurrences pattern text := by
  obtain ⟨first, more, rfl, absent, absents⟩ := exists_joined marked text
  rw [substituteFrom_joined marked, joined_substituteFrom_of_absent absent absents,
    occurrences_joined_of_absent marked absent absents, length_joined, length_joined]
  omega

/-- A text of which nothing changes has no occurrence, or the pattern was replaced by itself. -/
theorem absent_or_eq_of_substituteFrom (marked : IsMarked pattern) {text : List Char}
    (same : substituteFrom pattern replacement 0 text = text) :
    occurrences pattern text = 0 ∨ replacement = pattern := by
  obtain ⟨first, more, rfl, absent, absents⟩ := exists_joined marked text
  have length := length_substituteFrom marked replacement (joined pattern first more)
  rw [same] at length
  rw [substituteFrom_joined marked, joined_substituteFrom_of_absent absent absents] at same
  cases more with
  | nil => exact .inl absent
  | cons next more =>
    right
    have pos : 0 < occurrences pattern (joined pattern first (next :: more)) := by
      rw [occurrences_joined marked, List.length_cons]
      omega
    have lengths : replacement.length = pattern.length :=
      (Nat.mul_right_cancel pos (Nat.add_left_cancel length)).symm
    exact (List.append_inj (List.append_cancel_left same) lengths).1

theorem joined_injective {between first first' : List Char} {more more' : List (List Char)}
    (same : joined between first more = joined between first' more')
    (length : first.length = first'.length) (lengths : more.map List.length = more'.map List.length) :
    first = first' ∧ more = more' := by
  induction more generalizing first first' more' with
  | nil =>
    obtain rfl : more' = [] := List.map_eq_nil_iff.1 lengths.symm
    exact ⟨same, rfl⟩
  | cons next more ih =>
    cases more' with
    | nil => cases lengths
    | cons next' more' =>
      obtain ⟨nextLength, lengths⟩ := List.cons.inj lengths
      obtain ⟨rfl, rest⟩ := List.append_inj same length
      obtain ⟨rfl, rfl⟩ := ih (List.append_cancel_left rest) nextLength lengths
      exact ⟨rfl, rfl⟩

theorem substituteFrom_self (marked : IsMarked pattern) (text : List Char) :
    substituteFrom pattern pattern 0 text = text := by
  obtain ⟨first, more, rfl, absent, absents⟩ := exists_joined marked text
  rw [substituteFrom_joined marked, joined_substituteFrom_of_absent absent absents]

section Parts

variable (marked : IsMarked pattern) {first : List Char} {more : List (List Char)}

include marked

/-- If the replacement has another length, then the length of the text tells how often it was put in. -/
theorem occurrences_joined_of_length_ne (lengths : replacement.length ≠ pattern.length)
    (same : substituteFrom pattern replacement 0 (joined pattern first more) = joined replacement first more) :
    occurrences pattern (joined pattern first more) = more.length := by
  have length := length_substituteFrom marked replacement (joined pattern first more)
  rw [same, length_joined, length_joined] at length
  have balance : replacement.length * more.length +
      pattern.length * occurrences pattern (joined pattern first more) =
      pattern.length * more.length +
        replacement.length * occurrences pattern (joined pattern first more) := by
    omega
  zify at balance
  have zero : ((replacement.length : Int) - pattern.length) *
      (occurrences pattern (joined pattern first more) - more.length) = 0 := by
    linarith
  rcases Int.mul_eq_zero.1 zero with same | same <;> omega

/-- If the replacement has the length of the pattern, then all parts keep their length, so nothing changes in
any of them. -/
theorem occurrences_joined_of_length_eq (lengths : replacement.length = pattern.length)
    (other : replacement ≠ pattern)
    (same : substituteFrom pattern replacement 0 (joined pattern first more) = joined replacement first more) :
    occurrences pattern (joined pattern first more) = more.length := by
  have keeps (part : List Char) : (substituteFrom pattern replacement 0 part).length = part.length := by
    have kept := length_substituteFrom marked replacement part
    rw [lengths] at kept
    exact Nat.add_right_cancel kept
  have absent {part : List Char} (same : substituteFrom pattern replacement 0 part = part) :
      occurrences pattern part = 0 :=
    (absent_or_eq_of_substituteFrom marked same).resolve_right other
  rw [substituteFrom_joined marked] at same
  obtain ⟨firstSame, moreSame⟩ := joined_injective same (keeps first) (by
    rw [List.map_map]
    exact List.map_congr_left fun part _ => keeps part)
  exact occurrences_joined_of_absent marked (absent firstSame) fun part mem =>
    absent (List.map_inj_left.1 (moreSame.trans (List.map_id' more).symm) part mem)

end Parts

/-- A text is given in parts with the pattern between them. Replacing the pattern replaces it just there
exactly if it stands nowhere else, or is replaced by itself. -/
theorem substituteFrom_joined_eq_iff (marked : IsMarked pattern) (first : List Char)
    (more : List (List Char)) :
    substituteFrom pattern replacement 0 (joined pattern first more) = joined replacement first more ↔
      replacement = pattern ∨ occurrences pattern (joined pattern first more) = more.length := by
  constructor
  · intro same
    rcases eq_or_ne replacement pattern with isPattern | other
    · exact .inl isPattern
    · right
      by_cases lengths : replacement.length = pattern.length
      · exact occurrences_joined_of_length_eq marked lengths other same
      · exact occurrences_joined_of_length_ne marked lengths same
  · rintro (rfl | count)
    · exact substituteFrom_self marked _
    · rw [occurrences_joined marked] at count
      have absents (part : List Char) (mem : part ∈ more) : occurrences pattern part = 0 := by
        have le : occurrences pattern part ≤ (more.map (occurrences pattern)).sum :=
          List.le_sum_of_mem (List.mem_map_of_mem mem)
        omega
      rw [substituteFrom_joined marked, joined_substituteFrom_of_absent (by omega) absents]

end Resumable.Text
