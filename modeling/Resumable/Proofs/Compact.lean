import Resumable.Json.Writer
import Resumable.Proofs.Spelling

/-!
# Compact texts are read as what they were written for

The compact text of a value spells its tokens, if every number in the value is read from its own text
(`spelled_compact`).  So the value can be read from it again (`read_compact`).  Integers of up to 64
bits are always read from their texts; whether a binary number is depends on how exactly numbers are
read.
-/

namespace Resumable.Json

/-! ## The numbers in a value -/

mutual

/-- The numbers in a value. -/
def numbers : Json → List Number
  | .number n => [n]
  | .array items => numbersOfItems items
  | .object members => numbersOfMembers members
  | _ => []

/-- The numbers in the items. -/
def numbersOfItems : List Json → List Number
  | [] => []
  | item :: rest => item.numbers ++ numbersOfItems rest

/-- The numbers in the members. -/
def numbersOfMembers : List (String × Json) → List Number
  | [] => []
  | (_, value) :: rest => value.numbers ++ numbersOfMembers rest

end

theorem numbers_array (items : List Json) : (Json.array items).numbers = items.flatMap numbers := by
  rw [numbers]
  induction items with
  | nil => rfl
  | cons item rest ih => rw [numbersOfItems, ih, List.flatMap_cons]

theorem numbers_object (members : List (String × Json)) :
    (Json.object members).numbers = members.flatMap fun member => member.2.numbers := by
  rw [numbers]
  induction members with
  | nil => rfl
  | cons member rest ih => rw [numbersOfMembers, ih, List.flatMap_cons]

/-! ## Strings -/

theorem hexValue?_hexDigit : ∀ n < 16, hexValue? (hexDigit n) = some n := by decide

theorem scan?_letter {letter c : Char} (isLetter : escaped? letter = some c) (notUnit : letter ≠ 'u')
    (t : StringDraft) (rest : List Char) :
    (Scanner.string .none t).scan? ('\\' :: letter :: rest) =
      (Scanner.string .none (t.push c)).scan? rest := by
  have first : (Scanner.string .none t).step '\\' = ([], some (.string .backslash t)) := rfl
  have second : (Scanner.string .backslash t).step letter = ([], some (.string .none (t.push c))) := by
    rw [Scanner.step, Scanner.continueString, if_neg notUnit, isLetter]
    rfl
  rw [Scanner.scan?_cons_quiet first, Scanner.scan?_cons_quiet second]

theorem scan?_unit {high low : Nat} (isHigh : high < 16) (isLow : low < 16) (t : StringDraft)
    (rest : List Char) :
    (Scanner.string .none t).scan? ('\\' :: 'u' :: '0' :: '0' :: hexDigit high :: hexDigit low :: rest) =
      (Scanner.string .none (t.pushUnit (high * 16 + low))).scan? rest := by
  have backslash : (Scanner.string .none t).step '\\' = ([], some (.string .backslash t)) := rfl
  have mark : (Scanner.string .backslash t).step 'u' = ([], some (.string (.unit 0 4) t)) := rfl
  have first : (Scanner.string (.unit 0 4) t).step '0' = ([], some (.string (.unit 0 3) t)) := rfl
  have second : (Scanner.string (.unit 0 3) t).step '0' = ([], some (.string (.unit 0 2) t)) := rfl
  have third : (Scanner.string (.unit 0 2) t).step (hexDigit high) =
      ([], some (.string (.unit high 1) t)) := by
    rw [Scanner.step, Scanner.continueString, hexValue?_hexDigit high isHigh]
    simp
  have fourth : (Scanner.string (.unit high 1) t).step (hexDigit low) =
      ([], some (.string .none (t.pushUnit (high * 16 + low)))) := by
    rw [Scanner.step, Scanner.continueString, hexValue?_hexDigit low isLow]
    simp
  rw [Scanner.scan?_cons_quiet backslash, Scanner.scan?_cons_quiet mark,
    Scanner.scan?_cons_quiet first, Scanner.scan?_cons_quiet second, Scanner.scan?_cons_quiet third,
    Scanner.scan?_cons_quiet fourth]

/-- An escaped character is read as the character. -/
theorem scan?_escape (c : Char) (t : StringDraft) (rest : List Char) :
    (Scanner.string .none t).scan? (escape c ++ rest) =
      (Scanner.string .none (t.push c)).scan? rest := by
  have ofCode {n : Nat} (code : c.toNat = n) : c = Char.ofNat n := by rw [← code, Char.ofNat_toNat]
  unfold escape
  split
  · rename_i same
    rw [same]
    exact scan?_letter rfl (by decide) t rest
  split
  · rename_i same
    rw [same]
    exact scan?_letter rfl (by decide) t rest
  split
  · rename_i same
    rw [same]
    exact scan?_letter rfl (by decide) t rest
  split
  · rename_i same
    rw [same]
    exact scan?_letter rfl (by decide) t rest
  split
  · rename_i same
    rw [same]
    exact scan?_letter rfl (by decide) t rest
  split
  · rename_i same
    rw [ofCode same]
    exact scan?_letter rfl (by decide) t rest
  split
  · rename_i same
    rw [ofCode same]
    exact scan?_letter rfl (by decide) t rest
  split
  · rename_i control
    refine (scan?_unit (by omega) (by omega) t rest).trans ?_
    have code : c.toNat / 16 * 16 + c.toNat % 16 = c.toNat := by omega
    rw [code, StringDraft.pushUnit, if_neg (by omega), if_neg (by omega), Char.ofNat_toNat]
  · rename_i notQuote notBackslash _ _ _ _ _ noControl
    have pushed : (Scanner.string .none t).step c = ([], some (.string .none (t.push c))) := by
      rw [Scanner.step, Scanner.continueString, if_neg notQuote, if_neg notBackslash, if_neg noControl]
    rw [List.singleton_append, Scanner.scan?_cons_quiet pushed]

/-- What is read when the characters of a text are added to a string. -/
theorem scan?_escapes (text : List Char) (read : List Char) (rest : List Char) :
    (Scanner.string .none ⟨read, none, true⟩).scan? (text.flatMap escape ++ rest) =
      (Scanner.string .none ⟨text.reverse ++ read, none, true⟩).scan? rest := by
  induction text generalizing read with
  | nil => rfl
  | cons c text ih =>
    rw [List.flatMap_cons, List.append_assoc, scan?_escape]
    refine (ih (c :: read)).trans ?_
    rw [List.reverse_cons, List.append_assoc]
    rfl

/-- A literal is read as the string that it was written for. -/
theorem isText_quote (s : String) : (Token.string (some s)).IsText (quote s).toList := by
  have literal : (quote s).toList = '"' :: (s.toList.flatMap escape ++ ['"']) := by
    simp [quote]
  have opened : Scanner.idle.step '"' = ([], some (.string .none ⟨[], none, true⟩)) := rfl
  have closed : (Scanner.string .none ⟨s.toList.reverse ++ [], none, true⟩).scan? ['"'] =
      some [.string (some s)] := by
    have closes : (Scanner.string .none ⟨s.toList.reverse ++ [], none, true⟩).step '"' =
        ([.string (some s)], some .idle) := by
      simp [Scanner.step, Scanner.continueString, StringDraft.text?]
    rw [Scanner.scan?_cons_some closes]
    rfl
  change Scanner.idle.scan? _ = _
  rw [literal, Scanner.scan?_cons_quiet opened, scan?_escapes, closed]

/-! ## Numbers -/

/-- The number that was read when only digits were. -/
def Numeral.ofNat (n : Nat) : Numeral := { Numeral.signed false with significand := n }

theorem digitValue_digitChar : ∀ d < 10, digitValue (Nat.digitChar d) = d := by decide

theorem isDigit_digitChar : ∀ d < 10, (Nat.digitChar d).isDigit = true := by decide

theorem start_digitChar : ∀ d < 10, 0 < d →
    Scanner.start (Nat.digitChar d) = ([], some (.number .whole (.ofNat d))) := by
  decide

theorem Numeral.addWhole_ofNat {n d : Nat} (fits : n * 10 + d < UInt64.size) :
    (Numeral.ofNat n).addWhole d = Numeral.ofNat (n * 10 + d) := by
  simp [Numeral.addWhole, Numeral.append?, Numeral.ofNat, Numeral.signed, fits]

/-- The digits of a positive number of 64 bits. -/
theorem scan?_digits (n : Nat) (positive : 0 < n) (fits : n < UInt64.size) (rest : List Char) :
    Scanner.idle.scan? (Nat.toDigits 10 n ++ rest) =
      (Scanner.number .whole (.ofNat n)).scan? rest := by
  induction n using Nat.strongRecOn generalizing rest with
  | ind n ih =>
    by_cases single : n < 10
    · rw [Nat.toDigits_of_lt_base single]
      exact Scanner.scan?_cons_quiet (s := .idle) (start_digitChar n single positive) rest
    · have digit : n % 10 < 10 := Nat.mod_lt _ (by decide)
      have whole : n / 10 * 10 + n % 10 = n := by omega
      have added : (Scanner.number .whole (.ofNat (n / 10))).step (Nat.digitChar (n % 10)) =
          ([], some (.number .whole (.ofNat n))) := by
        rw [Scanner.step, Scanner.continueNumber, Numeral.continue?, isDigit_digitChar _ digit,
          digitValue_digitChar _ digit]
        simp only [if_true]
        rw [Numeral.addWhole_ofNat (by omega), whole]
      rw [Nat.toDigits_of_base_le (by decide) (by omega), List.append_assoc,
        ih (n / 10) (by omega) (by omega) (by omega), List.singleton_append,
        Scanner.scan?_cons_quiet added]

/-- A number of 64 bits is read from its digits. -/
theorem isText_ofNat (n : Nat) (fits : n < UInt64.size) :
    (Token.number (some (.integer n))).IsText (Number.integer n).text.toList := by
  have digits : (Number.integer n).text.toList = Nat.toDigits 10 n := by
    rw [Number.text, show toString (n : Int) = toString n from rfl, Nat.toString_eq_ofList_toDigits,
      String.toList_ofList]
  rw [digits]
  change Scanner.idle.scan? _ = _
  rcases Nat.eq_zero_or_pos n with rfl | positive
  · rfl
  · rw [← List.append_nil (Nat.toDigits 10 n), scan?_digits n positive fits]
    rfl

/-- A number that is read from its own text. -/
def Number.IsReadBack (n : Number) : Prop := ofText? n.text = some (.number n)

theorem Number.IsReadBack.spelled {n : Number} (readBack : n.IsReadBack) :
    Spelled [.number (some n)] n.text.toList := by
  rw [IsReadBack, ofText?] at readBack
  split at readBack
  · rename_i exact
    have reading : read n.text = ⟨(read n.text).root, true⟩ := by rw [← exact]
    obtain ⟨-, spelled⟩ := read_eq_iff.1 reading
    rwa [← Draft.draft_of_value? readBack] at spelled
  · cases readBack

theorem Number.isReadBack_of_isText {n : Number}
    (isText : (Token.number (some n)).IsText n.text.toList) : n.IsReadBack := by
  have reading : read n.text = ⟨.number (some n), true⟩ := read_eq_iff.2 ⟨rfl, .single isText⟩
  rw [IsReadBack, ofText?, reading]
  rfl

/-! ## Compact texts -/

theorem compactItems_eq (items : List Json) : compactItems items = items.map compact := by
  induction items with
  | nil => rfl
  | cons item rest ih => rw [compactItems, ih, List.map_cons]

theorem compactMembers_eq (members : List (String × Json)) : compactMembers members =
    members.map fun member => quote member.1 ++ ":" ++ compact member.2 := by
  induction members with
  | nil => rfl
  | cons member rest ih => rw [compactMembers, ih, List.map_cons]

/-- Parts with commas between them. -/
theorem spelled_intercalate {α : Type} {tokens : α → List Token} {text : α → String} {parts : List α}
    {separator : String} (comma : Spelled [.comma] separator.toList)
    (each : ∀ part ∈ parts, Spelled (tokens part) (text part).toList) :
    Spelled ([Token.comma].intercalate (parts.map tokens))
      (String.intercalate separator (parts.map text)).toList := by
  rw [String.toList_intercalate, List.map_map]
  induction parts with
  | nil => exact .blanks (List.forall_mem_nil _)
  | cons part rest ih =>
    obtain ⟨first, others⟩ := List.forall_mem_cons.1 each
    cases rest with
    | nil => simpa using first
    | cons part' rest =>
      rw [List.map_cons, List.map_cons, List.map_cons, List.map_cons, List.intercalate_cons_cons,
        List.intercalate_cons_cons]
      exact (first.append comma).append (ih others)

theorem spelled_literal {token : Token} {text : String} (same : token.literal? = some text.toList) :
    Spelled [token] text.toList :=
  .single (Token.isText_of_literal same)

/-- A text between an opening and a closing token. -/
theorem spelled_enclosed {inner : List Token} {text : String} (spelled : Spelled inner text.toList)
    {opening closing : Token} {first last : String} (opens : opening.literal? = some first.toList)
    (closes : closing.literal? = some last.toList) :
    Spelled (opening :: (inner ++ [closing])) (first ++ text ++ last).toList := by
  rw [String.toList_append, String.toList_append, List.append_assoc]
  exact .cons (Token.isText_of_literal opens) (spelled.append (spelled_literal closes))

/-- The compact text of a value spells its tokens, if its numbers are read from their texts. -/
theorem spelled_compact (v : Json) (readBack : ∀ n ∈ v.numbers, n.IsReadBack) :
    Spelled v.draft.tokens (compact v).toList := by
  induction v using inductionOn with
  | null => exact spelled_literal rfl
  | boolean b => cases b <;> exact spelled_literal rfl
  | number n => exact (readBack n (.head _)).spelled
  | string s => exact .single (isText_quote s)
  | array items ih =>
    rw [numbers_array, List.forall_mem_flatMap] at readBack
    rw [draft_array, Draft.tokens_array, List.map_map, compact, compactItems_eq]
    refine spelled_enclosed (spelled_intercalate (spelled_literal rfl) fun item mem => ?_) rfl rfl
    exact ih item mem (readBack item mem)
  | object members ih =>
    rw [numbers_object, List.forall_mem_flatMap] at readBack
    rw [draft_object, Draft.tokens_object, List.map_map, compact, compactMembers_eq]
    refine spelled_enclosed (spelled_intercalate (spelled_literal rfl) fun member mem => ?_) rfl rfl
    have value := ih member mem (readBack member mem)
    rw [String.toList_append, String.toList_append, List.append_assoc]
    exact .cons (isText_quote member.1) ((spelled_literal rfl).append value)

/-- A value is read from its compact text, if its numbers are read from their texts. -/
theorem read_compact {v : Json} (readBack : ∀ n ∈ v.numbers, n.IsReadBack) :
    read (compact v) = ⟨v.draft, true⟩ :=
  read_eq_iff.2 ⟨isComplete_draft v, spelled_compact v readBack⟩

end Resumable.Json
