import Mathlib.Data.List.Nodup
import Mathlib.Data.List.Perm.Subperm
import Resumable.NameSupply
import Resumable.Proofs.NameSearch

/-!
# Fresh names

A supply never hands out a name that is taken (`not_isTaken_fresh`): the candidates with different
numbers are different names, so not all of the next ones can be taken.  What it handed out is taken
from then on (`isTaken_fresh_iff`), so several names are different ones (`nodup_nextNames`).
-/

namespace Resumable

namespace NameSupply

/-! ## Candidates -/

theorem candidate_injective (supply : NameSupply) : Function.Injective supply.candidate := by
  intro m n same
  have reprs : m.repr = n.repr := (String.append_right_inj supply.stem).1 same
  have digits : Nat.toDigits 10 m = Nat.toDigits 10 n := by
    rw [← Nat.toList_repr, ← Nat.toList_repr, reprs]
  calc
    m = Nat.ofDigitChars 10 (Nat.toDigits 10 m) 0 := Nat.ofDigitChars_ten_toDigits.symm
    _ = Nat.ofDigitChars 10 (Nat.toDigits 10 n) 0 := congrArg (Nat.ofDigitChars 10 · 0) digits
    _ = n := Nat.ofDigitChars_ten_toDigits

/-- If the search ends at a taken name, then every name that it tried is taken, and the one
after. -/
theorem isTaken_of_firstFree {supply : NameSupply} (tries n : Nat)
    (full : supply.isTaken (supply.candidate (supply.firstFree tries n)) = true) :
    ∀ i ≤ tries, supply.isTaken (supply.candidate (n + i)) = true := by
  induction tries generalizing n with
  | zero =>
    intro i le
    obtain rfl : i = 0 := by omega
    exact full
  | succ tries ih =>
    intro i le
    unfold firstFree at full
    split at full
    · rename_i taken
      cases i with
      | zero => exact taken
      | succ i =>
        have later := ih (n + 1) full i (by omega)
        rwa [show n + 1 + i = n + (i + 1) by omega] at later
    · rename_i free
      exact absurd full free

/-- A name that is handed out was not taken. -/
theorem not_isTaken_fresh (supply : NameSupply) : supply.isTaken supply.fresh.1 = false := by
  let tried := (List.range (supply.taken.size + 1)).map fun i => supply.candidate (supply.next + i)
  have distinct : tried.Nodup := by
    refine List.Nodup.map (fun i j same => ?_) List.nodup_range
    have numbers := supply.candidate_injective same
    omega
  have tooMany : ¬ tried ⊆ supply.taken.toList := by
    intro inside
    have le := (List.subperm_of_subset distinct inside).length_le
    have length : tried.length = supply.taken.size + 1 := by simp [tried]
    rw [length, Std.TreeSet.length_toList] at le
    omega
  by_contra full
  refine tooMany fun name mem => ?_
  obtain ⟨i, inRange, rfl⟩ := List.mem_map.1 mem
  have le : i ≤ supply.taken.size := by
    have lt := List.mem_range.1 inRange
    omega
  have taken := isTaken_of_firstFree _ _ (Bool.not_eq_false _ ▸ full) i le
  exact Std.TreeSet.mem_toList.2 (Std.TreeSet.contains_iff_mem.1 taken)

theorem isTaken_reserve_iff (supply : NameSupply) (reserved name : String) :
    (supply.reserve reserved).isTaken name = true ↔
      name = reserved ∨ supply.isTaken name = true := by
  simp only [isTaken, reserve, Std.TreeSet.contains_iff_mem, Std.TreeSet.mem_insert,
    Std.compare_eq_iff_eq]
  exact or_congr_left eq_comm

theorem isTaken_reserveAll_iff (supply : NameSupply) (names : List String) (name : String) :
    (supply.reserveAll names).isTaken name = true ↔ name ∈ names ∨ supply.isTaken name = true := by
  induction names generalizing supply with
  | nil => simp [reserveAll]
  | cons first rest ih =>
    have step := ih (supply.reserve first)
    rw [isTaken_reserve_iff] at step
    apply step.trans
    rw [List.mem_cons, ← or_assoc]
    exact or_congr_left or_comm

/-- What was handed out is taken, and so is what was taken before. -/
theorem isTaken_fresh_iff (supply : NameSupply) (name : String) :
    supply.fresh.2.isTaken name = true ↔ name = supply.fresh.1 ∨ supply.isTaken name = true :=
  isTaken_reserve_iff supply supply.fresh.1 name

/-! ## Several names -/

/-- The next names of a supply. -/
def nextNames : Nat → NameSupply → List String
  | 0, _ => []
  | n + 1, supply => supply.fresh.1 :: nextNames n supply.fresh.2

/-- The supply after it handed out some names. -/
def after : Nat → NameSupply → NameSupply
  | 0, supply => supply
  | n + 1, supply => after n supply.fresh.2

theorem isTaken_after_iff (n : Nat) (supply : NameSupply) (name : String) :
    (supply.after n).isTaken name = true ↔ name ∈ supply.nextNames n ∨ supply.isTaken name = true := by
  induction n generalizing supply with
  | zero => simp [after, nextNames]
  | succ n ih =>
    rw [after, nextNames, ih, isTaken_fresh_iff, List.mem_cons, or_left_comm, or_assoc]

/-- The next names of a supply are names that were not taken. -/
theorem not_isTaken_nextNames {n : Nat} {supply : NameSupply} {name : String}
    (mem : name ∈ supply.nextNames n) : supply.isTaken name = false := by
  induction n generalizing supply with
  | zero => cases mem
  | succ n ih =>
    rcases List.mem_cons.1 mem with rfl | later
    · exact supply.not_isTaken_fresh
    · have free := ih later
      by_contra taken
      have still := (supply.isTaken_fresh_iff name).2 (.inr (Bool.not_eq_false _ ▸ taken))
      rw [still] at free
      cases free

/-- No name is handed out twice. -/
theorem nodup_nextNames (n : Nat) (supply : NameSupply) : (supply.nextNames n).Nodup := by
  induction n generalizing supply with
  | zero => exact List.nodup_nil
  | succ n ih =>
    refine List.nodup_cons.2 ⟨fun again => ?_, ih supply.fresh.2⟩
    have free := not_isTaken_nextNames again
    have taken := (supply.isTaken_fresh_iff supply.fresh.1).2 (.inl rfl)
    rw [taken] at free
    cases free

theorem stem_reserveAll (supply : NameSupply) (names : List String) :
    (supply.reserveAll names).stem = supply.stem := by
  induction names generalizing supply with
  | nil => rfl
  | cons name rest ih => exact ih (supply.reserve name)

/-- The names of a supply are made of its stem and a number. -/
theorem exists_candidate_of_mem {n : Nat} {supply : NameSupply} {name : String}
    (mem : name ∈ supply.nextNames n) : ∃ number : Nat, name = supply.stem ++ toString number := by
  induction n generalizing supply with
  | zero => cases mem
  | succ n ih =>
    rcases List.mem_cons.1 mem with first | later
    · exact ⟨_, first⟩
    · obtain ⟨number, same⟩ := ih later
      exact ⟨number, same⟩

/-- A supply handed out names, one after the other, and became another. -/
def Gives (supply : NameSupply) (names : List String) (later : NameSupply) : Prop :=
  names = supply.nextNames names.length ∧ later = supply.after names.length

theorem gives_next (n : Nat) (supply : NameSupply) :
    supply.Gives (supply.nextNames n) (supply.after n) := by
  have length : (supply.nextNames n).length = n := by
    induction n generalizing supply with
    | zero => rfl
    | succ n ih => exact congrArg (· + 1) (ih supply.fresh.2)
  exact ⟨by rw [length], by rw [length]⟩

theorem nextNames_add (m n : Nat) (supply : NameSupply) :
    supply.nextNames (m + n) = supply.nextNames m ++ (supply.after m).nextNames n := by
  induction m generalizing supply with
  | zero => rw [Nat.zero_add]; rfl
  | succ m ih =>
    rw [Nat.add_right_comm]
    exact congrArg (supply.fresh.1 :: ·) (ih supply.fresh.2)

theorem after_add (m n : Nat) (supply : NameSupply) :
    supply.after (m + n) = (supply.after m).after n := by
  induction m generalizing supply with
  | zero => rw [Nat.zero_add]; rfl
  | succ m ih =>
    rw [Nat.add_right_comm]
    exact ih supply.fresh.2

/-- What is handed out adds up. -/
theorem isTrace_gives : IsTrace Gives where
  nil _ := ⟨rfl, rfl⟩
  append := by
    rintro s t u a b ⟨ha, rfl⟩ ⟨hb, rfl⟩
    rw [Gives, List.length_append, nextNames_add, after_add]
    exact ⟨by rw [← hb, ← ha], rfl⟩

namespace Gives

variable {s later : NameSupply} {names : List String}

theorem nodup (gives : s.Gives names later) : names.Nodup := gives.1 ▸ nodup_nextNames _ s

theorem isTaken_iff (gives : s.Gives names later) (name : String) :
    later.isTaken name = true ↔ name ∈ names ∨ s.isTaken name = true := by
  rw [gives.2, isTaken_after_iff, ← gives.1]

theorem not_isTaken (gives : s.Gives names later) {name : String} (mem : name ∈ names) :
    s.isTaken name = false :=
  not_isTaken_nextNames (gives.1 ▸ mem)

/-- The names that were handed out are those that are taken afterwards and were not before. -/
theorem mem_iff (gives : s.Gives names later) (name : String) :
    name ∈ names ↔ s.isTaken name = false ∧ later.isTaken name = true := by
  rw [gives.isTaken_iff]
  refine ⟨fun mem => ⟨gives.not_isTaken mem, .inl mem⟩, ?_⟩
  rintro ⟨free, mem | taken⟩
  · exact mem
  · rw [free] at taken
    cases taken

end Gives

end NameSupply

/-- Once the names of a tree are reserved, they are taken as well. -/
theorem Node.isTaken_reserveAll_names_iff (node : Node) (supply : NameSupply) (name : String) :
    (supply.reserveAll node.names.toList).isTaken name = true ↔
      node.uses name ∨ supply.isTaken name = true := by
  rw [supply.isTaken_reserveAll_iff, Std.TreeSet.mem_toList, mem_names_iff]

end Resumable
