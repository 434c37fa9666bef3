import Mathlib.Data.List.Dedup
import Mathlib.Order.Bounds.Basic
import Resumable.Proofs.FreshNames

/-!
# Requests to a supply of names

A fresh name is the one with the least number, from the next one on, that is not taken
(`isLeast_number`).  Over any requests to a supply, each candidate is tried once: it is either handed out
or passed over (`perm_tried`), and what is passed over had been reserved
(`mem_reserved_of_mem_skipped`).  So the next number is at most the number of names that were asked for
and of those that were reserved, and a search that keeps it in 32 bits finds the same names
(`search_number`, `ofStem_answers`).
-/

namespace Resumable.NameSupply

/-! ## The least free number -/

/-- The number of the name that is handed out next. -/
def number (supply : NameSupply) : Nat := supply.firstFree supply.taken.size supply.next

theorem le_firstFree (supply : NameSupply) (tries n : Nat) : n ≤ supply.firstFree tries n := by
  induction tries generalizing n with
  | zero => exact Nat.le_refl n
  | succ tries ih =>
    unfold firstFree
    split
    · exact Nat.le_trans (Nat.le_succ n) (ih (n + 1))
    · exact Nat.le_refl n

/-- The search passes over names that are taken. -/
theorem isTaken_of_lt_firstFree {supply : NameSupply} {tries n i : Nat} (le : n ≤ i)
    (lt : i < supply.firstFree tries n) : supply.isTaken (supply.candidate i) = true := by
  induction tries generalizing n with
  | zero => exact absurd lt (Nat.not_lt.2 le)
  | succ tries ih =>
    unfold firstFree at lt
    split at lt
    · rename_i taken
      rcases Nat.eq_or_lt_of_le le with rfl | later
      · exact taken
      · exact ih later lt
    · exact absurd lt (Nat.not_lt.2 le)

theorem next_le_number (supply : NameSupply) : supply.next ≤ supply.number :=
  supply.le_firstFree _ _

@[simp] theorem next_fresh (supply : NameSupply) : supply.fresh.2.next = supply.number + 1 := rfl

theorem fresh_eq_candidate (supply : NameSupply) : supply.fresh.1 = supply.candidate supply.number := rfl

/-- The number of a fresh name is the least one, from the next one on, whose name is free. -/
theorem isLeast_number (supply : NameSupply) :
    IsLeast {n | supply.next ≤ n ∧ supply.isTaken (supply.candidate n) = false} supply.number := by
  refine ⟨⟨supply.next_le_number, supply.not_isTaken_fresh⟩, ?_⟩
  rintro n ⟨le, free⟩
  by_contra lt
  cases (isTaken_of_lt_firstFree le (Nat.lt_of_not_le lt)).symm.trans free

/-! ## The search with a counter of 32 bits -/

/-- A loop that tries one candidate in each turn, with a counter of 32 bits that does not overflow,
ends with a name and leaves the counter behind its number. -/
inductive Search (supply : NameSupply) : UInt32 → String → UInt32 → Prop
  | found {n : UInt32} (room : n.toNat + 1 < UInt32.size)
      (free : supply.isTaken (supply.candidate n.toNat) = false) :
      Search supply n (supply.candidate n.toNat) (n + 1)
  | onward {n later : UInt32} {name : String} (room : n.toNat + 1 < UInt32.size)
      (taken : supply.isTaken (supply.candidate n.toNat) = true) (more : Search supply (n + 1) name later) :
      Search supply n name later

theorem search_number {supply : NameSupply} (fits : supply.number + 1 < UInt32.size) {n : Nat}
    (from_ : supply.next ≤ n) (upTo : n ≤ supply.number) :
    supply.Search (.ofNat n) (supply.candidate supply.number) (.ofNat (supply.number + 1)) := by
  have value {k : Nat} (le : k ≤ supply.number) : (UInt32.ofNat k).toNat = k :=
    UInt32.toNat_ofNat_of_lt' (by omega)
  have step (k : Nat) : UInt32.ofNat (k + 1) = .ofNat k + 1 := UInt32.ofNat_add k 1
  -- Downwards from the number that is found.
  induction upTo using Nat.decreasingInduction with
  | self =>
    have found : supply.Search (.ofNat supply.number) _ _ := .found
      (by rw [value (Nat.le_refl _)]; exact fits)
      (by rw [value (Nat.le_refl _)]; exact supply.not_isTaken_fresh)
    rwa [value (Nat.le_refl _), ← step] at found
  | of_succ k lt ih =>
    refine .onward ?_ ?_ (step k ▸ ih (by omega))
    · rw [value (by omega)]
      omega
    · rw [value (by omega)]
      exact isTaken_of_lt_firstFree from_ lt

/-! ## Requests -/

/-- What may be asked of a supply. -/
inductive Request where
  | reserve (name : String)
  | reserveAll (names : List String)
  /-- Asks for a name. -/
  | fresh
  deriving Repr, DecidableEq

/-- The names that a request reserves. -/
def Request.reserved : Request → List String
  | .reserve name => [name]
  | .reserveAll names => names
  | .fresh => []

/-- The supply after a request. -/
def serve (supply : NameSupply) : Request → NameSupply
  | .reserve name => supply.reserve name
  | .reserveAll names => supply.reserveAll names
  | .fresh => supply.fresh.2

/-- The supply after some requests. -/
def serveAll (supply : NameSupply) (requests : List Request) : NameSupply := requests.foldl serve supply

/-- The name that a request is answered with, if it asks for one. -/
def given (supply : NameSupply) : Request → List String
  | .fresh => [supply.fresh.1]
  | _ => []

/-- The candidates from the next number on up to another one. -/
def candidatesTo (supply : NameSupply) (bound : Nat) : List String :=
  (List.range' supply.next (bound - supply.next)).map supply.candidate

/-- The candidates that are passed over in the search for the name that a request asks for. -/
def passedOver (supply : NameSupply) : Request → List String
  | .fresh => supply.candidatesTo supply.number
  | _ => []

/-- What the requests give, one after the other, where `answer` tells what one of them gives. -/
def collect (answer : NameSupply → Request → List String) (supply : NameSupply) : List Request → List String
  | [] => []
  | request :: rest => answer supply request ++ (supply.serve request).collect answer rest

/-- The names that are handed out. -/
def generated (supply : NameSupply) (requests : List Request) : List String := supply.collect given requests

/-- The candidates that are passed over. -/
def skipped (supply : NameSupply) (requests : List Request) : List String :=
  supply.collect passedOver requests

theorem generated_cons (supply : NameSupply) (request : Request) (rest : List Request) :
    supply.generated (request :: rest) = supply.given request ++ (supply.serve request).generated rest := rfl

theorem skipped_cons (supply : NameSupply) (request : Request) (rest : List Request) :
    supply.skipped (request :: rest) = supply.passedOver request ++ (supply.serve request).skipped rest := rfl

theorem serveAll_append (supply : NameSupply) (requests more : List Request) :
    supply.serveAll (requests ++ more) = (supply.serveAll requests).serveAll more :=
  List.foldl_append

@[simp] theorem stem_serve (supply : NameSupply) (request : Request) :
    (supply.serve request).stem = supply.stem := by
  cases request with
  | reserve name => rfl
  | reserveAll names => exact supply.stem_reserveAll names
  | fresh => rfl

theorem next_reserveAll (supply : NameSupply) (names : List String) :
    (supply.reserveAll names).next = supply.next := by
  induction names generalizing supply with
  | nil => rfl
  | cons name rest ih => exact ih (supply.reserve name)

theorem candidate_serve (supply : NameSupply) (request : Request) :
    (supply.serve request).candidate = supply.candidate := by
  funext n
  rw [candidate, candidate, stem_serve]

theorem next_le_next_serve (supply : NameSupply) (request : Request) :
    supply.next ≤ (supply.serve request).next := by
  cases request with
  | reserve name => exact Nat.le_refl _
  | reserveAll names => exact (supply.next_reserveAll names).ge
  | fresh => exact Nat.le_succ_of_le supply.next_le_number

/-- A request tries the candidates up to the next number that it leaves behind: the last of them is
handed out and the others are passed over. -/
theorem tried_serve (supply : NameSupply) (request : Request) :
    supply.passedOver request ++ supply.given request =
      supply.candidatesTo (supply.serve request).next := by
  cases request with
  | reserve name => simp [passedOver, given, candidatesTo, serve, reserve]
  | reserveAll names => simp [passedOver, given, candidatesTo, serve, next_reserveAll]
  | fresh =>
    have le := supply.next_le_number
    rw [passedOver, given, candidatesTo, candidatesTo, serve, next_fresh, show supply.number + 1 -
      supply.next = supply.number - supply.next + 1 by omega, List.range'_concat, List.map_append]
    simp [fresh_eq_candidate, Nat.add_sub_cancel' le]

theorem candidatesTo_append {supply later : NameSupply} (same : later.candidate = supply.candidate)
    (le : supply.next ≤ later.next) {bound : Nat} (upTo : later.next ≤ bound) :
    supply.candidatesTo later.next ++ later.candidatesTo bound = supply.candidatesTo bound := by
  rw [candidatesTo, candidatesTo, candidatesTo, same, ← List.map_append]
  congr 1
  have split := @List.range'_append_1 supply.next (later.next - supply.next) (bound - later.next)
  rwa [Nat.add_sub_cancel' le, show later.next - supply.next + (bound - later.next) =
    bound - supply.next by omega] at split

theorem candidate_serveAll (supply : NameSupply) (requests : List Request) :
    (supply.serveAll requests).candidate = supply.candidate := by
  induction requests generalizing supply with
  | nil => rfl
  | cons request rest ih => exact (ih (supply.serve request)).trans (supply.candidate_serve request)

theorem next_le_next_serveAll (supply : NameSupply) (requests : List Request) :
    supply.next ≤ (supply.serveAll requests).next := by
  induction requests generalizing supply with
  | nil => exact Nat.le_refl _
  | cons request rest ih => exact Nat.le_trans (supply.next_le_next_serve request) (ih _)

/-- Requests try each candidate up to the next number that they leave behind once: it is either passed
over or handed out. -/
theorem perm_tried (supply : NameSupply) (requests : List Request) :
    (supply.skipped requests ++ supply.generated requests).Perm
      (supply.candidatesTo (supply.serveAll requests).next) := by
  induction requests generalizing supply with
  | nil => simp [skipped, generated, collect, candidatesTo, serveAll]
  | cons request rest ih =>
    let later := supply.serve request
    have here := supply.tried_serve request
    have whole := candidatesTo_append (supply.candidate_serve request) (supply.next_le_next_serve request)
      (later.next_le_next_serveAll rest)
    calc
      _ = supply.passedOver request ++ later.skipped rest ++
          (supply.given request ++ later.generated rest) := rfl
      List.Perm _ (supply.passedOver request ++ supply.given request ++
          (later.skipped rest ++ later.generated rest)) := by
        simp only [List.append_assoc]
        refine List.Perm.append_left _ ?_
        simp only [← List.append_assoc]
        exact List.perm_append_comm.append_right _
      List.Perm _ (supply.candidatesTo later.next ++ later.candidatesTo (later.serveAll rest).next) := by
        rw [here]
        exact List.Perm.append_left _ (ih later)
      _ = supply.candidatesTo (supply.serveAll (request :: rest)).next := whole

theorem nodup_candidatesTo (supply : NameSupply) (bound : Nat) : (supply.candidatesTo bound).Nodup :=
  List.Nodup.map supply.candidate_injective List.nodup_range'

theorem mem_candidatesTo_iff {supply : NameSupply} {bound : Nat} {name : String} :
    name ∈ supply.candidatesTo bound ↔ ∃ n, supply.next ≤ n ∧ n < bound ∧ name = supply.candidate n := by
  simp only [candidatesTo, List.mem_map, List.mem_range'_1]
  constructor
  · rintro ⟨n, ⟨le, lt⟩, rfl⟩
    exact ⟨n, le, by omega, rfl⟩
  · rintro ⟨n, le, lt, rfl⟩
    exact ⟨n, ⟨le, by omega⟩, rfl⟩

/-! ## What requests leave behind -/

variable {supply : NameSupply} {requests : List Request} {name : String}

theorem nodup_tried (supply : NameSupply) (requests : List Request) :
    (supply.skipped requests ++ supply.generated requests).Nodup :=
  (supply.perm_tried requests).nodup_iff.2 (supply.nodup_candidatesTo _)

/-- A number that was not tried yet is not that of a name which was handed out. -/
theorem not_mem_generated_of_le (supply : NameSupply) {requests : List Request} {k : Nat}
    (le : (supply.serveAll requests).next ≤ k) : supply.candidate k ∉ supply.generated requests := by
  intro given
  have tried := (supply.perm_tried requests).mem_iff.1 (List.mem_append_right _ given)
  obtain ⟨n, -, lt, same⟩ := mem_candidatesTo_iff.1 tried
  have numbers := supply.candidate_injective same
  omega

/-- The next number counts what was handed out and what was passed over. -/
theorem next_serveAll (supply : NameSupply) (requests : List Request) :
    (supply.serveAll requests).next =
      supply.next + ((supply.generated requests).length + (supply.skipped requests).length) := by
  have length := (supply.perm_tried requests).length_eq
  have le := supply.next_le_next_serveAll requests
  rw [List.length_append, candidatesTo, List.length_map, List.length_range'] at length
  omega

theorem isTaken_serve_iff (supply : NameSupply) (request : Request) (name : String) :
    (supply.serve request).isTaken name = true ↔
      name ∈ supply.given request ∨ name ∈ request.reserved ∨ supply.isTaken name = true := by
  cases request with
  | reserve other => simp [serve, given, Request.reserved, isTaken_reserve_iff]
  | reserveAll names => simp [serve, given, Request.reserved, isTaken_reserveAll_iff]
  | fresh => simp [serve, given, Request.reserved, isTaken_fresh_iff]

/-- The names that are taken after requests are those that were handed out or reserved, and those that
were taken before. -/
theorem isTaken_serveAll_iff (supply : NameSupply) (requests : List Request) (name : String) :
    (supply.serveAll requests).isTaken name = true ↔
      name ∈ supply.generated requests ∨ name ∈ requests.flatMap Request.reserved ∨
        supply.isTaken name = true := by
  induction requests generalizing supply with
  | nil => simp [serveAll, generated, collect]
  | cons request rest ih =>
    refine (ih (supply.serve request)).trans ?_
    rw [isTaken_serve_iff, generated_cons, List.mem_append, List.flatMap_cons, List.mem_append]
    tauto

/-- What is passed over had been reserved, or was taken before all requests. -/
theorem mem_reserved_of_mem_skipped (mem : name ∈ supply.skipped requests) :
    name ∈ requests.flatMap Request.reserved ∨ supply.isTaken name = true := by
  induction requests generalizing supply with
  | nil => cases mem
  | cons request rest ih =>
    have apart : name ∉ supply.generated (request :: rest) := fun given =>
      (List.nodup_append'.1 (supply.nodup_tried _)).2.2 mem given
    rw [generated_cons, List.mem_append, not_or] at apart
    rw [skipped_cons, List.mem_append] at mem
    rcases mem with first | later
    · cases request with
      | reserve | reserveAll => cases first
      | fresh =>
        obtain ⟨n, le, lt, rfl⟩ := mem_candidatesTo_iff.1 first
        exact .inr (isTaken_of_lt_firstFree le lt)
    · rw [List.flatMap_cons, List.mem_append]
      rcases ih later with reserved | taken
      · exact .inl (.inr reserved)
      · rcases (supply.isTaken_serve_iff request name).1 taken with given | reserved | before
        · exact absurd given apart.1
        · exact .inl (.inl reserved)
        · exact .inr before

theorem length_generated (supply : NameSupply) (requests : List Request) :
    (supply.generated requests).length = requests.count .fresh := by
  induction requests generalizing supply with
  | nil => rfl
  | cons request rest ih =>
    have later := ih (supply.serve request)
    rw [generated_cons, List.length_append, later, List.count_cons]
    cases request <;> simp [given, Nat.add_comm]

theorem serveAll_replicate (n : Nat) (supply : NameSupply) :
    supply.serveAll (List.replicate n .fresh) = supply.after n := by
  induction n generalizing supply with
  | zero => rfl
  | succ n ih => exact ih supply.fresh.2

theorem generated_replicate (n : Nat) (supply : NameSupply) :
    supply.generated (List.replicate n .fresh) = supply.nextNames n := by
  induction n generalizing supply with
  | zero => rfl
  | succ n ih => exact congrArg (supply.fresh.1 :: ·) (ih supply.fresh.2)

/-- The names that are handed out one after the other are those with the numbers in between that were
free. -/
theorem Gives.mem_iff_number {s later : NameSupply} {names : List String} (gives : s.Gives names later)
    (name : String) :
    name ∈ names ↔
      s.isTaken name = false ∧ ∃ n, s.next ≤ n ∧ n < later.next ∧ name = s.candidate n := by
  obtain ⟨isNext, isLater⟩ := id gives
  have tried := (s.perm_tried (List.replicate names.length .fresh)).mem_iff (a := name)
  rw [generated_replicate, serveAll_replicate, ← isNext, ← isLater, List.mem_append,
    mem_candidatesTo_iff] at tried
  constructor
  · intro mem
    exact ⟨gives.not_isTaken mem, tried.1 (.inr mem)⟩
  · rintro ⟨free, inRange⟩
    rcases tried.2 inRange with passed | mem
    · rcases mem_reserved_of_mem_skipped passed with reserved | taken
      · obtain ⟨request, isRequest, inside⟩ := List.mem_flatMap.1 reserved
        cases List.eq_of_mem_replicate isRequest
        cases inside
      · cases free.symm.trans taken
    · exact mem

/-! ## New supplies -/

theorem not_isTaken_ofStem (stem name : String) : (ofStem stem).isTaken name = false :=
  Std.TreeSet.contains_emptyc

/-- What is passed over are different names that were reserved, so there are no more of them. -/
theorem length_skipped_le (stem : String) (requests : List Request) :
    ((ofStem stem).skipped requests).length ≤ (requests.flatMap Request.reserved).dedup.length := by
  refine (List.subperm_of_subset (List.nodup_append'.1 (nodup_tried _ requests)).1 fun name mem => ?_).length_le
  rcases mem_reserved_of_mem_skipped mem with reserved | taken
  · exact List.mem_dedup.2 reserved
  · cases (not_isTaken_ofStem stem name).symm.trans taken

/-- If fewer names than a counter of 32 bits can tell apart are asked for or reserved, then requests to a
new supply are answered like this.  The names that are taken before a request for a name are those that
were reserved or handed out.  The request is answered with the least number, from the next one on, whose
name is not taken, which the search with a counter of 32 bits finds without an overflow; what it passes
over had been reserved and not been handed out.  All names that are handed out are different ones, and
the next number counts them and what was passed over. -/
theorem ofStem_answers (stem : String) (requests : List Request)
    (budget : requests.count .fresh + (requests.flatMap Request.reserved).dedup.length < UInt32.size) :
    let start := ofStem stem
    (∀ before after, requests = before ++ .fresh :: after →
      let supply := start.serveAll before
      let reserved := before.flatMap Request.reserved
      let earlier := start.generated before
      (∀ name, supply.isTaken name = true ↔ name ∈ earlier ∨ name ∈ reserved) ∧
      ∃ n : Nat, IsLeast {n | supply.next ≤ n ∧ supply.isTaken (stem ++ toString n) = false} n ∧
        supply.fresh.1 = stem ++ toString n ∧ supply.fresh.2.next = n + 1 ∧
        supply.Search (.ofNat supply.next) (stem ++ toString n) (.ofNat (n + 1)) ∧
        ∀ k, supply.next ≤ k → k < n → stem ++ toString k ∈ reserved ∧ stem ++ toString k ∉ earlier) ∧
    (start.generated requests).length = requests.count .fresh ∧ (start.generated requests).Nodup ∧
    (start.serveAll requests).next =
      (start.generated requests).length + (start.skipped requests).length ∧
    (start.serveAll requests).next < UInt32.size := by
  intro start
  have counter := start.next_serveAll requests
  have asked := start.length_generated requests
  have passed := length_skipped_le stem requests
  rw [show start.next = 0 from rfl, Nat.zero_add] at counter
  have fits : (start.serveAll requests).next < UInt32.size := by
    rw [counter, asked]
    exact Nat.lt_of_le_of_lt (Nat.add_le_add_left passed _) budget
  refine ⟨?_, asked, (List.nodup_append'.1 (start.nodup_tried requests)).2.1, counter, fits⟩
  rintro before after rfl supply reserved earlier
  have candidates : supply.candidate = start.candidate := candidate_serveAll start before
  have taken (name : String) : supply.isTaken name = true ↔ name ∈ earlier ∨ name ∈ reserved := by
    refine (start.isTaken_serveAll_iff before name).trans (or_congr_right ?_)
    rw [not_isTaken_ofStem, Bool.false_eq_true, or_false]
  have least := supply.isLeast_number
  have answer := supply.fresh_eq_candidate
  have room : supply.number + 1 < UInt32.size := by
    refine Nat.lt_of_le_of_lt ?_ fits
    rw [serveAll_append]
    exact supply.fresh.2.next_le_next_serveAll after
  have found := search_number room (Nat.le_refl _) supply.next_le_number
  rw [candidates] at least answer found
  refine ⟨taken, supply.number, least, answer, rfl, found, fun k le lt => ?_⟩
  have inUse : supply.isTaken (stem ++ toString k) = true := by
    have isTaken := isTaken_of_lt_firstFree le lt
    rwa [candidates] at isTaken
  have notEarlier := start.not_mem_generated_of_le le
  exact ⟨((taken _).1 inUse).resolve_left notEarlier, notEarlier⟩

/-- Two names around three that are reserved: the search for the second one begins at 2 and ends behind
4. -/
theorem ofStem_answers_t :
    let before := [.reserve "t0", .reserveAll ["t2", "t3"], .fresh]
    let requests := before ++ [.fresh]
    requests.count .fresh + (requests.flatMap Request.reserved).dedup.length < UInt32.size ∧
      (ofStem "t").generated requests = ["t1", "t4"] ∧ (ofStem "t").skipped requests = ["t0", "t2", "t3"] ∧
      ((ofStem "t").serveAll requests).next = 5 ∧ ((ofStem "t").serveAll before).Search 2 "t4" 5 := by
  intro before requests
  have budget : requests.count .fresh + (requests.flatMap Request.reserved).dedup.length < UInt32.size := by
    decide
  have names : (ofStem "t").generated requests = ["t1", "t4"] := by decide
  have passed : (ofStem "t").skipped requests = ["t0", "t2", "t3"] := by decide
  obtain ⟨answers, -, -, counter, -⟩ := ofStem_answers "t" requests budget
  rw [names, passed] at counter
  obtain ⟨-, n, -, -, behind, found, -⟩ := answers before [] rfl
  have five : ((ofStem "t").serveAll before).fresh.2.next = 5 := by decide
  obtain rfl : 4 = n := Nat.succ.inj (five.symm.trans behind)
  exact ⟨budget, names, passed, counter, found⟩

end Resumable.NameSupply
