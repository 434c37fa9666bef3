import Mathlib.Data.List.Count
import Mathlib.Logic.Function.Basic
import Resumable.Diagnostic
import Resumable.Proofs.NumberTexts
import Resumable.Proofs.Replacement

/-!
# Filling a template at once

A template is a row of characters and of places of arguments (`pieces`), and `fillAtOnce` writes an argument
in each place it has one for, and nothing else anew.  `fill` takes the arguments one after the other
and looks for the place of each in the text of those before it, so it may find one that is none of the
template's.  It does what `fillAtOnce` does as long as this does not happen, and no longer
(`fill_take_eq_iff`); it does not happen as long as all arguments but the last are plain words
(`makesNoPlace_of_isPlain`).
-/

namespace Resumable

open Text (occurrences joined IsMarked)

/-! ## Places -/

theorem toList_placeholder (i : Nat) : (placeholder i).toList = '{' :: (Nat.toDigits 10 i ++ ['}']) := by
  rw [placeholder, String.toList_append, String.toList_append, Nat.toString_eq_repr, Nat.toList_repr]
  rfl

theorem notMem_tail_placeholder (i : Nat) : '{' ∉ Nat.toDigits 10 i ++ ['}'] := by
  rw [List.mem_append, List.mem_singleton]
  rintro (digit | same)
  · exact absurd (isDigit_of_mem_toDigits _ digit) (by decide)
  · exact absurd same (by decide)

theorem isMarked_placeholder (i : Nat) : IsMarked (placeholder i).toList :=
  ⟨_, _, toList_placeholder i, notMem_tail_placeholder i⟩

/-- The argument whose place begins a text. -/
def placeAt? (text : List Char) : Option Nat :=
  let i := Nat.ofDigitChars 10 ((text.drop 1).takeWhile Char.isDigit) 0
  if (placeholder i).toList.isPrefixOf text then some i else none

theorem placeAt?_eq_some_iff {text : List Char} {i : Nat} :
    placeAt? text = some i ↔ (placeholder i).toList <+: text := by
  constructor
  · intro found
    rw [placeAt?] at found
    split at found
    · obtain rfl := Option.some.inj found
      exact List.isPrefixOf_iff_prefix.1 ‹_›
    · cases found
  · rintro ⟨behind, rfl⟩
    have digits : (((placeholder i).toList ++ behind).drop 1).takeWhile Char.isDigit = Nat.toDigits 10 i := by
      rw [toList_placeholder, List.cons_append, List.drop_one, List.tail_cons, List.append_assoc,
        List.takeWhile_append_of_pos isDigit_of_mem_toDigits]
      exact List.append_nil _
    rw [placeAt?, digits, Nat.ofDigitChars_ten_toDigits]
    exact if_pos (List.isPrefixOf_iff_prefix.2 (List.prefix_append _ _))

/-! ## Pieces -/

/-- What a template consists of. -/
inductive Piece where
  | character (c : Char)
  | place (argument : Nat)
  deriving Repr, DecidableEq

/-- The text that a piece stands for, by the texts of the arguments. -/
def Piece.write (value : Nat → List Char) : Piece → List Char
  | .character c => [c]
  | .place argument => value argument

/-- The text that pieces stand for. -/
def render (value : Nat → List Char) (pieces : List Piece) : List Char := pieces.flatMap (·.write value)

/-- The pieces of the rest of a text, of which the first `skip` characters belong to a place. -/
def piecesFrom (skip : Nat) : List Char → List Piece
  | [] => []
  | c :: rest =>
    if 0 < skip then piecesFrom (skip - 1) rest
    else match placeAt? (c :: rest) with
      | some argument => .place argument :: piecesFrom ((placeholder argument).toList.length - 1) rest
      | none => .character c :: piecesFrom 0 rest

/-- The pieces of a text. -/
def pieces (text : List Char) : List Piece := piecesFrom 0 text

theorem piecesFrom_skip (front behind : List Char) :
    piecesFrom front.length (front ++ behind) = pieces behind := by
  induction front with
  | nil => rfl
  | cons c front ih =>
    rw [List.length_cons, List.cons_append, piecesFrom, if_pos (Nat.succ_pos _)]
    exact ih

theorem pieces_placeholder (i : Nat) (behind : List Char) :
    pieces ((placeholder i).toList ++ behind) = .place i :: pieces behind := by
  have begins : placeAt? ((placeholder i).toList ++ behind) = some i :=
    placeAt?_eq_some_iff.2 (List.prefix_append _ _)
  rw [toList_placeholder, List.cons_append] at begins ⊢
  rw [pieces, piecesFrom, if_neg (Nat.lt_irrefl 0), begins]
  show Piece.place i :: piecesFrom ((placeholder i).toList.length - 1) _ = _
  rw [toList_placeholder, List.length_cons, Nat.add_sub_cancel, piecesFrom_skip]

theorem pieces_cons {c : Char} {rest : List Char} (none : placeAt? (c :: rest) = none) :
    pieces (c :: rest) = .character c :: pieces rest := by
  rw [pieces, piecesFrom, if_neg (Nat.lt_irrefl 0), none]
  rfl

/-- A text is empty, or begins with a place, or with a character of its own. -/
theorem piecewise {motive : List Char → Prop} (nil : motive [])
    (place : ∀ i behind, motive behind → motive ((placeholder i).toList ++ behind))
    (character : ∀ c rest, placeAt? (c :: rest) = none → motive rest → motive (c :: rest))
    (text : List Char) : motive text := by
  induction size : text.length using Nat.strongRecOn generalizing text with
  | ind length ih =>
    cases text with
    | nil => exact nil
    | cons c rest =>
      cases found : placeAt? (c :: rest) with
      | none =>
        rw [List.length_cons] at size
        exact character c rest found (ih rest.length (by omega) rest rfl)
      | some i =>
        obtain ⟨behind, split⟩ := placeAt?_eq_some_iff.1 found
        have long := congrArg List.length split
        rw [toList_placeholder, List.length_append, List.length_cons, size] at long
        exact split ▸ place i behind (ih behind.length (by omega) behind rfl)

/-- The pieces of a text make up the text. -/
theorem render_pieces (text : List Char) : render (fun i => (placeholder i).toList) (pieces text) = text := by
  induction text using piecewise with
  | nil => rfl
  | place i behind ih =>
    rw [pieces_placeholder]
    exact congrArg ((placeholder i).toList ++ ·) ih
  | character c rest none ih =>
    rw [pieces_cons none]
    exact congrArg (c :: ·) ih

theorem occurrences_placeholder_append (i j : Nat) (behind : List Char) :
    occurrences (placeholder j).toList ((placeholder i).toList ++ behind) =
      (if i = j then 1 else 0) + occurrences (placeholder j).toList behind := by
  have begins : (placeholder j).toList.isPrefixOf ((placeholder i).toList ++ behind) = true ↔ i = j := by
    rw [List.isPrefixOf_iff_prefix, ← placeAt?_eq_some_iff,
      placeAt?_eq_some_iff.2 (List.prefix_append (placeholder i).toList behind), Option.some_inj]
  rw [toList_placeholder i, List.cons_append] at begins ⊢
  rw [Text.occurrences_cons, toList_placeholder j,
    Text.occurrences_append_of_notMem (notMem_tail_placeholder i), ← toList_placeholder j]
  simp only [begins]

/-- Each occurrence of a place in a text is a piece of it. -/
theorem count_pieces (j : Nat) (text : List Char) :
    (pieces text).count (.place j) = occurrences (placeholder j).toList text := by
  induction text using piecewise with
  | nil => rfl
  | place i behind ih =>
    rw [pieces_placeholder, List.count_cons, ih, occurrences_placeholder_append, Nat.add_comm]
    simp only [beq_iff_eq, Piece.place.injEq]
  | character c rest none ih =>
    have other : ¬ (placeholder j).toList.isPrefixOf (c :: rest) = true := fun begins => by
      rw [placeAt?_eq_some_iff.2 (List.isPrefixOf_iff_prefix.1 begins)] at none
      cases none
    rw [pieces_cons none, List.count_cons_of_ne Piece.noConfusion, ih, Text.occurrences_cons,
      if_neg other, Nat.zero_add]

/-- Pieces are written with the text of one argument between parts that do not depend on it. -/
theorem exists_joined_render (value : Nat → List Char) (j : Nat) (pieces : List Piece) :
    ∃ first more, more.length = pieces.count (.place j) ∧
      ∀ between, render (Function.update value j between) pieces = joined between first more := by
  induction pieces with
  | nil => exact ⟨[], [], rfl, fun _ => rfl⟩
  | cons piece pieces ih =>
    obtain ⟨first, more, count, renders⟩ := ih
    by_cases here : piece = .place j
    · subst here
      refine ⟨[], first :: more, ?_, fun between => ?_⟩
      · rw [List.length_cons, count, List.count_cons_self]
      · calc
          _ = Function.update value j between j ++ render (Function.update value j between) pieces := rfl
          _ = between ++ joined between first more := by rw [Function.update_self, renders]
    · refine ⟨piece.write value ++ first, more, ?_, fun between => ?_⟩
      · rw [count, List.count_cons_of_ne here]
      · have same : piece.write (Function.update value j between) = piece.write value := by
          cases piece with
          | character c => rfl
          | place i => exact Function.update_of_ne (fun same => here (congrArg _ same)) _ _
        calc
          _ = piece.write (Function.update value j between) ++
              render (Function.update value j between) pieces := rfl
          _ = piece.write value ++ joined between first more := by rw [same, renders]
          _ = _ := Text.append_joined _ _ _ _

/-! ## Filling -/

/-- The text in the place of an argument: the argument, or the place itself if there are fewer. -/
def argumentText (arguments : List String) (i : Nat) : List Char :=
  (arguments[i]?.getD (placeholder i)).toList

/-- Puts the arguments into the places of a text, all of them at once. -/
def fillAtOnce (text : String) (arguments : List String) : String :=
  String.ofList (render (argumentText arguments) (pieces text.toList))

theorem fillAtOnce_nil (text : String) : fillAtOnce text [] = text := by
  have value : argumentText [] = fun i => (placeholder i).toList := rfl
  rw [fillAtOnce, value, render_pieces, String.ofList_toList]

section Steps

variable (text : String) {arguments : List String} {n : Nat} (lt : n < arguments.length)

theorem argumentText_take :
    argumentText (arguments.take n) =
      Function.update (argumentText (arguments.take n)) n (placeholder n).toList := by
  refine (Function.update_eq_self_iff.2 ?_).symm
  rw [argumentText, List.getElem?_take_eq_none (Nat.le_refl n), Option.getD_none]

theorem argumentText_take_succ :
    argumentText (arguments.take (n + 1)) =
      Function.update (argumentText (arguments.take n)) n arguments[n].toList := by
  funext i
  rcases eq_or_ne i n with rfl | other
  · rw [Function.update_self, argumentText, List.getElem?_take_of_lt (Nat.lt_succ_self i),
      List.getElem?_eq_getElem lt, Option.getD_some]
  · rw [Function.update_of_ne other, argumentText, argumentText]
    rcases Nat.lt_or_gt_of_ne other with before | behind
    · rw [List.getElem?_take_of_lt before, List.getElem?_take_of_lt (Nat.lt_succ_of_lt before)]
    · rw [List.getElem?_take_eq_none (Nat.le_of_lt behind), List.getElem?_take_eq_none behind]

include lt

/-- `fill` looks for the place of one more argument in the text of those before it. -/
theorem fill_take_succ :
    fill text (arguments.take (n + 1)) =
      Text.substitute (placeholder n) arguments[n] (fill text (arguments.take n)) := by
  rw [List.take_succ_eq_append_getElem lt, fill, List.zipIdx_append, List.foldl_append]
  simp only [List.length_take, Nat.min_eq_left (Nat.le_of_lt lt), Nat.zero_add]
  rfl

/-- One more argument is put into its places in the template exactly if the texts of those before it
made no new places for it, or the argument is its place itself. -/
theorem substitute_fillAtOnce_iff :
    Text.substitute (placeholder n) arguments[n] (fillAtOnce text (arguments.take n)) =
        fillAtOnce text (arguments.take (n + 1)) ↔
      arguments[n] = placeholder n ∨
        occurrences (placeholder n).toList (fillAtOnce text (arguments.take n)).toList =
          occurrences (placeholder n).toList text.toList := by
  obtain ⟨first, more, count, renders⟩ :=
    exists_joined_render (argumentText (arguments.take n)) n (pieces text.toList)
  have before : (fillAtOnce text (arguments.take n)).toList = joined (placeholder n).toList first more := by
    rw [fillAtOnce, argumentText_take, renders, String.toList_ofList]
  have after : fillAtOnce text (arguments.take (n + 1)) =
      String.ofList (joined arguments[n].toList first more) := by
    rw [fillAtOnce, argumentText_take_succ lt, renders]
  rw [Text.substitute, before, after, String.ofList_inj,
    Text.substituteFrom_joined_eq_iff (isMarked_placeholder n), String.toList_inj, count, count_pieces]

end Steps

/-- No text of an argument makes a place for a later argument where the template has none, unless this
place is all that is put there. -/
def MakesNoPlace (text : String) (arguments : List String) : Prop :=
  ∀ i (lt : i < arguments.length), arguments[i] = placeholder i ∨
    occurrences (placeholder i).toList (fillAtOnce text (arguments.take i)).toList =
      occurrences (placeholder i).toList text.toList

theorem MakesNoPlace.fill_take {text : String} {arguments : List String} (clear : MakesNoPlace text arguments)
    {n : Nat} (le : n ≤ arguments.length) : fill text (arguments.take n) = fillAtOnce text (arguments.take n) := by
  induction n with
  | zero => exact (fillAtOnce_nil text).symm
  | succ n ih =>
    rw [fill_take_succ text le, ih (Nat.le_of_lt le)]
    exact (substitute_fillAtOnce_iff text le).2 (clear n le)

/-- Putting in the arguments one after the other does the same as putting them in at once, argument by
argument, exactly if none that is put in makes a new place for a later one. -/
theorem fill_take_eq_iff (text : String) (arguments : List String) :
    (∀ n ≤ arguments.length, fill text (arguments.take n) = fillAtOnce text (arguments.take n)) ↔
      MakesNoPlace text arguments := by
  constructor
  · intro same i lt
    rw [← substitute_fillAtOnce_iff text lt, ← same i (Nat.le_of_lt lt), ← fill_take_succ text lt]
    exact same (i + 1) lt
  · exact fun clear n => clear.fill_take

/-- An argument is searched for the place of a later one, and may make one with the braces around it. -/
theorem argument_searched :
    (fill "\x7b0\x7d" ["\x7b1\x7d", "x"] = "x" ∧
      fillAtOnce "\x7b0\x7d" ["\x7b1\x7d", "x"] = "\x7b1\x7d") ∧
    (fill "\x7b\x7b0\x7d\x7d" ["1", "x"] = "x" ∧
      fillAtOnce "\x7b\x7b0\x7d\x7d" ["1", "x"] = "\x7b1\x7d") := by
  decide

/-! ## Plain arguments -/

/-- An argument without braces that is no number, nor empty, so that braces around it make no place. -/
structure IsPlain (argument : List Char) : Prop where
  opens : '{' ∉ argument
  closes : '}' ∉ argument
  marked : ∃ c ∈ argument, c.isDigit = false

theorem IsPlain.not_closed {argument digits behind : List Char} (plain : IsPlain argument)
    (all : ∀ c ∈ digits, c.isDigit = true) : ¬ digits ++ ['}'] <+: argument ++ behind := by
  intro begins
  rcases List.prefix_or_prefix_of_prefix begins (List.prefix_append argument behind) with inside | outside
  · exact plain.closes (inside.subset (List.mem_append_right _ (List.mem_singleton_self _)))
  · obtain ⟨c, mem, other⟩ := plain.marked
    rcases List.mem_append.1 (outside.subset mem) with digit | close
    · rw [all c digit] at other
      cases other
    · exact plain.closes (List.mem_singleton.1 close ▸ mem)

section Plain

variable {value : Nat → List Char} (plain : ∀ i, value i = (placeholder i).toList ∨ IsPlain (value i))

include plain

/-- Digits with a closing brace behind them that begin a filled template begin the template. -/
theorem closed_of_render {digits : List Char} (all : ∀ c ∈ digits, c.isDigit = true) (text : List Char)
    (begins : digits ++ ['}'] <+: render value (pieces text)) : digits ++ ['}'] <+: text := by
  induction text using piecewise generalizing digits with
  | nil => exact begins
  | place i behind ih =>
    rw [pieces_placeholder] at begins
    change _ <+: value i ++ _ at begins
    rcases plain i with same | isPlain
    · rw [same, toList_placeholder] at begins
      cases digits with
      | nil => exact absurd (List.cons_prefix_cons.1 begins).1 (by decide)
      | cons d digits =>
        obtain rfl := (List.cons_prefix_cons.1 begins).1
        exact absurd (all _ (.head _)) (by decide)
    · exact absurd begins (isPlain.not_closed all)
  | character c rest none ih =>
    rw [pieces_cons none] at begins
    change _ <+: c :: render value (pieces rest) at begins
    cases digits with
    | nil => exact List.cons_prefix_cons.2 ⟨(List.cons_prefix_cons.1 begins).1, List.nil_prefix⟩
    | cons d digits =>
      obtain ⟨same, begins⟩ := List.cons_prefix_cons.1 begins
      exact List.cons_prefix_cons.2 ⟨same, ih (fun c mem => all c (.tail _ mem)) begins⟩

/-- Plain arguments make no places. -/
theorem occurrences_render {j : Nat} (self : value j = (placeholder j).toList) (text : List Char) :
    occurrences (placeholder j).toList (render value (pieces text)) =
      occurrences (placeholder j).toList text := by
  induction text using piecewise with
  | nil => rfl
  | place i behind ih =>
    rw [pieces_placeholder, occurrences_placeholder_append, ← ih]
    change occurrences _ (value i ++ render value (pieces behind)) = _
    rcases plain i with same | isPlain
    · rw [same, occurrences_placeholder_append]
    · have other : i ≠ j := by
        rintro rfl
        rw [self, toList_placeholder] at isPlain
        exact isPlain.opens (.head _)
      rw [toList_placeholder j, Text.occurrences_append_of_notMem isPlain.opens, if_neg other, Nat.zero_add]
  | character c rest none ih =>
    have absent : ¬ (placeholder j).toList <+: c :: rest := fun begins => by
      rw [placeAt?_eq_some_iff.2 begins] at none
      cases none
    have still : ¬ (placeholder j).toList <+: c :: render value (pieces rest) := fun begins => by
      rw [toList_placeholder, List.cons_prefix_cons] at begins absent
      exact absent ⟨begins.1, closed_of_render plain isDigit_of_mem_toDigits rest begins.2⟩
    rw [← List.isPrefixOf_iff_prefix] at absent still
    rw [pieces_cons none]
    change occurrences _ (c :: render value (pieces rest)) = _
    rw [Text.occurrences_cons, Text.occurrences_cons, if_neg absent, if_neg still, ih]

end Plain

/-- Plain arguments may be put in one after the other, and a last one of any kind. -/
theorem makesNoPlace_of_isPlain (text : String) {arguments : List String} (last : String)
    (plain : ∀ argument ∈ arguments, IsPlain argument.toList) : MakesNoPlace text (arguments ++ [last]) := by
  intro i lt
  right
  rw [List.length_append, List.length_singleton] at lt
  rw [List.take_append_of_le_length (Nat.le_of_lt_succ lt), fillAtOnce, String.toList_ofList]
  refine occurrences_render (fun k => ?_) ?_ text.toList
  · rw [argumentText]
    cases found : (arguments.take i)[k]? with
    | none => exact .inl rfl
    | some argument => exact .inr (plain argument (List.mem_of_mem_take (List.mem_of_getElem? found)))
  · rw [argumentText, List.getElem?_take_eq_none (Nat.le_refl i), Option.getD_none]

/-- A report with one argument, as all there are, is filled at once. -/
theorem Template.text_diagnose (template : Template) (span : Span) (argument : String) :
    (template.diagnose span [argument]).text = fillAtOnce template.text [argument] :=
  (makesNoPlace_of_isPlain template.text argument (List.forall_mem_nil _)).fill_take (Nat.le_refl 1)

end Resumable
