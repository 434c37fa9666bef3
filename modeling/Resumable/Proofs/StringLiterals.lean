import Mathlib.Data.List.Basic
import Resumable.Json.Scanner
import Resumable.Proofs.Replacement
import Resumable.Syntax.Print

/-!
# What printed string literals denote

A string literal stands between double quotes, where a backslash begins an escape (`escape?`), and anything
but a line feed and a carriage return denotes itself (`Contents`).  Its value is a row of 16-bit code units, as
that of every string is (`utf16`).  `stringLiteral` escapes quotes and backslashes and nothing else, so what it
writes is the literal of its text exactly if the text has neither line feeds nor carriage returns; with
one of them it is not a literal at all (`reads_expression_stringLiteral_iff`).
-/

namespace Resumable

namespace Quotation

/-! ## Code units -/

/-- The code units of a code point: the number itself, or two surrogates. -/
def codeUnits (point : Nat) : List UInt16 :=
  if point < 0x10000 then [.ofNat point]
  else [.ofNat (0xD800 + (point - 0x10000) / 0x400), .ofNat (0xDC00 + (point - 0x10000) % 0x400)]

/-- The code units of a text. -/
def utf16 (text : List Char) : List UInt16 := text.flatMap fun c => codeUnits c.toNat

/-! ## Literals -/

/-- The number that hexadecimal digits write. -/
def hexadecimal? (digits : List Char) : Option Nat :=
  if digits = [] then none else digits.foldlM (fun n c => (16 * n + ·) <$> Json.hexValue? c) 0

/-- The code point that an escape begun by `u` names, in braces or by four digits, and what follows. -/
def codePoint? : List Char → Option (Nat × List Char)
  | '\x7b' :: text =>
    match text.dropWhile (Json.hexValue? · |>.isSome) with
    | '\x7d' :: rest => do
      let point ← hexadecimal? (text.takeWhile (Json.hexValue? · |>.isSome))
      if point ≤ 0x10FFFF then some (point, rest) else none
    | _ => none
  | a :: b :: c :: d :: rest => (·, rest) <$> hexadecimal? [a, b, c, d]
  | _ => none

/-- What the escape after a backslash denotes in strict code, and what follows it.  A line break that is
escaped denotes nothing, and a digit is no escape, but for the zero that no digit follows. -/
def escape? : List Char → Option (List UInt16 × List Char)
  | [] => none
  | 'b' :: rest => some ([8], rest)
  | 't' :: rest => some ([9], rest)
  | 'n' :: rest => some ([10], rest)
  | 'v' :: rest => some ([11], rest)
  | 'f' :: rest => some ([12], rest)
  | 'r' :: rest => some ([13], rest)
  | 'x' :: a :: b :: rest => (fun point => (codeUnits point, rest)) <$> hexadecimal? [a, b]
  | 'x' :: _ => none
  | 'u' :: rest => (fun (point, rest) => (codeUnits point, rest)) <$> codePoint? rest
  | '\r' :: '\n' :: rest => some ([], rest)
  | c :: rest =>
    if c ∈ ['\n', '\r', '\u2028', '\u2029'] then some ([], rest)
    else if c = '0' ∧ (rest.head?.all fun d => ¬ d.isDigit) then some ([0], rest)
    else if c.isDigit then none
    else some (codeUnits c.toNat, rest)

/-- The contents of a literal denote code units, and the rest of the text stands behind its closing quote.
Of the four line breaks, U+2028 and U+2029 may stand in a literal since ECMAScript 2019. -/
inductive Contents : List Char → List UInt16 → List Char → Prop
  | close (rest : List Char) : Contents ('"' :: rest) [] rest
  | plain {c : Char} {text : List Char} {units : List UInt16} {rest : List Char}
      (allowed : c ∉ ['"', '\\', '\n', '\r']) (contents : Contents text units rest) :
      Contents (c :: text) (codeUnits c.toNat ++ units) rest
  | escape {text behind : List Char} {given units : List UInt16} {rest : List Char}
      (escapes : escape? text = some (given, behind)) (contents : Contents behind units rest) :
      Contents ('\\' :: text) (given ++ units) rest

/-- A text begins with a string literal of a value, and the rest of the text stands behind it. -/
def Reads (text : List Char) (units : List UInt16) (rest : List Char) : Prop :=
  ∃ contents, text = '"' :: contents ∧ Contents contents units rest

example : escape? "x41.".toList = some ([0x41], ['.']) := by decide

example : escape? "u\x7b1F600\x7d".toList = some ([0xD83D, 0xDE00], []) := by decide

/-! ## Strings by their code units -/

/-- The code units of a character tell it, and where they end. -/
theorem codeUnits_append_inj {c d : Char} {units others : List UInt16}
    (same : codeUnits c.toNat ++ units = codeUnits d.toNat ++ others) : c = d ∧ units = others := by
  have validC : c.toNat < 0xD800 ∨ 0xDFFF < c.toNat ∧ c.toNat < 0x110000 := c.valid
  have validD : d.toNat < 0xD800 ∨ 0xDFFF < d.toNat ∧ d.toNat < 0x110000 := d.valid
  have inj {m n : Nat} (same : UInt16.ofNat m = .ofNat n) : m % 2 ^ 16 = n % 2 ^ 16 := by
    simpa using congrArg UInt16.toNat same
  unfold codeUnits at same
  split at same <;> split at same
  · obtain ⟨first, rest⟩ := List.cons.inj same
    have number := inj first
    exact ⟨Char.toNat_inj.1 (by omega), rest⟩
  · have number := inj (List.cons.inj same).1
    omega
  · have number := inj (List.cons.inj same).1
    omega
  · obtain ⟨first, rest⟩ := List.cons.inj same
    obtain ⟨second, rest⟩ := List.cons.inj rest
    have high := inj first
    have low := inj second
    exact ⟨Char.toNat_inj.1 (by omega), rest⟩

theorem codeUnits_ne_nil (point : Nat) : codeUnits point ≠ [] := by
  unfold codeUnits
  split <;> exact List.cons_ne_nil _ _

theorem utf16_injective : Function.Injective utf16 := by
  intro text other same
  induction text generalizing other with
  | nil =>
    cases other with
    | nil => rfl
    | cons d other => exact absurd (List.append_eq_nil_iff.1 same.symm).1 (codeUnits_ne_nil _)
  | cons c text ih =>
    cases other with
    | nil => exact absurd (List.append_eq_nil_iff.1 same).1 (codeUnits_ne_nil _)
    | cons d other =>
      obtain ⟨rfl, rest⟩ := codeUnits_append_inj same
      rw [ih rest]

/-! ## What is read -/

section Contents

variable {text rest : List Char} {units : List UInt16}

theorem contents_close : Contents ('"' :: text) units rest ↔ units = [] ∧ rest = text := by
  constructor
  · intro contents
    cases contents with
    | close => exact ⟨rfl, rfl⟩
    | plain allowed => exact absurd (.head _) allowed
  · rintro ⟨rfl, rfl⟩
    exact .close _

theorem contents_plain {c : Char} (quote : c ≠ '"') (backslash : c ≠ '\\') :
    Contents (c :: text) units rest ↔
      (c ≠ '\n' ∧ c ≠ '\r') ∧ ∃ more, units = codeUnits c.toNat ++ more ∧ Contents text more rest := by
  constructor
  · intro contents
    cases contents with
    | close => exact absurd rfl quote
    | plain allowed contents =>
      simp only [List.mem_cons, not_or] at allowed
      exact ⟨⟨allowed.2.2.1, allowed.2.2.2.1⟩, _, rfl, contents⟩
    | escape => exact absurd rfl backslash
  · rintro ⟨⟨feed, return_⟩, more, rfl, contents⟩
    exact .plain (by simp [quote, backslash, feed, return_]) contents

theorem contents_escape {behind : List Char} {given : List UInt16}
    (escapes : escape? text = some (given, behind)) :
    Contents ('\\' :: text) units rest ↔ ∃ more, units = given ++ more ∧ Contents behind more rest := by
  constructor
  · intro contents
    cases contents with
    | plain allowed => exact absurd (.tail _ (.head _)) allowed
    | escape other contents =>
      rw [escapes] at other
      cases other
      exact ⟨_, rfl, contents⟩
  · rintro ⟨more, rfl, contents⟩
    exact .escape escapes contents

end Contents

end Quotation

open Quotation

/-! ## What is printed -/

/-- How a character is written inside a literal. -/
def literalCharacter (c : Char) : List Char := if c = '\\' ∨ c = '"' then ['\\', c] else [c]

theorem toList_stringLiteral (value : String) :
    (stringLiteral value).toList = '"' :: (value.toList.flatMap literalCharacter ++ ['"']) := by
  simp only [stringLiteral, String.toList_append, String.toList_ofList]
  rfl

theorem contents_literalCharacter (c : Char) (text : List Char) {units : List UInt16} {rest : List Char} :
    Contents (literalCharacter c ++ text) units rest ↔
      (c ≠ '\n' ∧ c ≠ '\r') ∧ ∃ more, units = codeUnits c.toNat ++ more ∧ Contents text more rest := by
  rw [literalCharacter]
  split
  next escaped =>
    have escapes : escape? (c :: text) = some (codeUnits c.toNat, text) := by
      rcases escaped with rfl | rfl <;> rfl
    have allowed : c ≠ '\n' ∧ c ≠ '\r' := by
      rcases escaped with rfl | rfl <;> decide
    exact (contents_escape escapes).trans (and_iff_right allowed).symm
  next plain =>
    rw [not_or] at plain
    exact contents_plain plain.2 plain.1

theorem contents_literal (value behind : List Char) {units : List UInt16} {rest : List Char} :
    Contents (value.flatMap literalCharacter ++ '"' :: behind) units rest ↔
      ('\n' ∉ value ∧ '\r' ∉ value) ∧ units = utf16 value ∧ rest = behind := by
  induction value generalizing units with
  | nil => simpa [utf16] using contents_close
  | cons c value ih =>
    rw [List.flatMap_cons, List.append_assoc, contents_literalCharacter]
    simp only [ih, List.mem_cons, not_or]
    constructor
    · rintro ⟨allowed, more, rfl, all, rfl, rfl⟩
      exact ⟨⟨⟨allowed.1.symm, all.1⟩, allowed.2.symm, all.2⟩, rfl, rfl⟩
    · rintro ⟨⟨⟨feed, feeds⟩, return_, returns⟩, rfl, rfl⟩
      exact ⟨⟨Ne.symm feed, Ne.symm return_⟩, _, rfl, ⟨feeds, returns⟩, rfl, rfl⟩

/-- A text without line breaks that have to be escaped is read from what is printed for it, up to the quote
that the printer closed it with; a text with one of them is not, nor is anything else. -/
theorem reads_stringLiteral_iff (value : String) (behind : List Char) {units : List UInt16} {rest : List Char} :
    Reads ((stringLiteral value).toList ++ behind) units rest ↔
      ('\n' ∉ value.toList ∧ '\r' ∉ value.toList) ∧ units = utf16 value.toList ∧ rest = behind := by
  rw [toList_stringLiteral, List.cons_append, List.append_assoc, List.singleton_append, ← contents_literal]
  constructor
  · rintro ⟨contents, same, reads⟩
    obtain rfl := (List.cons.inj same).2
    exact reads
  · exact fun reads => ⟨_, rfl, reads⟩

/-- What is printed for a text is read as no other one. -/
theorem eq_of_reads {value other : String} {behind rest : List Char}
    (reads : Reads ((stringLiteral value).toList ++ behind) (utf16 other.toList) rest) : other = value := by
  obtain ⟨-, units, -⟩ := (reads_stringLiteral_iff value behind).1 reads
  exact String.toList_inj.1 (utf16_injective units)

theorem Node.textAt_stringLiteral (span : Span) (value : String) (level : Nat) :
    Node.textAt ⟨span, .stringLiteral value⟩ level = Resumable.stringLiteral value := by
  rw [textAt, para_eq]
  rfl

/-- A string literal stands in no place between parentheses. -/
theorem Part.expression_stringLiteral (span : Span) (value : String) {least : Nat} (level : Nat)
    (le : least ≤ Precedence.primary) :
    Part.expression least level (⟨span, .stringLiteral value⟩, Node.textAt ⟨span, .stringLiteral value⟩) =
      Resumable.stringLiteral value := by
  rw [Part.expression, Node.textAt_stringLiteral]
  exact if_neg (Nat.not_lt.2 le)

theorem Node.print_stringLiteral (span : Span) (value : String) :
    Node.print ⟨span, .stringLiteral value⟩ = Resumable.stringLiteral value :=
  Part.expression_stringLiteral span value 0 (Nat.zero_le _)

/-- In whatever place a string literal is printed, the text from there on begins with a literal exactly if the
value has no line break that would have to be escaped.  The literal then denotes the value, and ends where
the printer closed it. -/
theorem reads_expression_stringLiteral_iff (span : Span) (value : String) {least : Nat} (level : Nat)
    (le : least ≤ Precedence.primary) (behind : List Char) (units : List UInt16) (rest : List Char) :
    let node : Node := ⟨span, .stringLiteral value⟩
    Reads ((Part.expression least level (node, node.textAt)).toList ++ behind) units rest ↔
      ('\n' ∉ value.toList ∧ '\r' ∉ value.toList) ∧ units = utf16 value.toList ∧ rest = behind := by
  intro node
  rw [Part.expression_stringLiteral span value level le]
  exact reads_stringLiteral_iff value behind

theorem reads_quotes_and_backslashes :
    let node : Node := .synthetic (.stringLiteral "\\\" \\\u2028")
    Precedence.member ≤ Precedence.primary ∧
      Part.expression Precedence.member 0 (node, node.textAt) = "\"\\\\\\\" \\\\\u2028\"" ∧
      Reads ((Part.expression Precedence.member 0 (node, node.textAt)).toList ++ ".length".toList)
        [0x5C, 0x22, 0x20, 0x5C, 0x2028] ".length".toList := by
  refine ⟨by decide, ?_, ?_⟩
  · exact (Part.expression_stringLiteral _ _ _ (by decide)).trans (by decide)
  · exact (reads_expression_stringLiteral_iff _ _ 0 (by decide) _ _ _).2 ⟨by decide, by decide, rfl⟩

/-- A line feed is printed as it is, and breaks the literal off. -/
theorem line_feed_unclosed :
    let node : Node := .synthetic (.stringLiteral "\n")
    node.print = "\"\n\"" ∧ ¬ ∃ behind units rest, Reads (node.print.toList ++ behind) units rest := by
  intro node
  have print : node.print = stringLiteral "\n" := Node.print_stringLiteral _ _
  rw [print]
  refine ⟨by decide, fun ⟨behind, units, rest, reads⟩ => ?_⟩
  exact absurd ((reads_stringLiteral_iff _ _).1 reads).1.1 (by decide)

/-! ## Escaping by replacement -/

/-- A literal is escaped by replacing the backslashes first, and the quotes then. -/
theorem stringLiteral_eq_substitute (value : String) :
    stringLiteral value =
      "\"" ++ Text.substitute "\"" "\\\"" (Text.substitute "\\" "\\\\" value) ++ "\"" := by
  have backslashes : (Text.substitute "\\" "\\\\" value).toList =
      value.toList.flatMap fun c => if c = '\\' then ['\\', '\\'] else [c] :=
    String.toList_ofList.trans (Text.substituteFrom_singleton _ _ _)
  have quotes (text : String) : Text.substitute "\"" "\\\"" text =
      String.ofList (text.toList.flatMap fun c => if c = '"' then ['\\', '"'] else [c]) :=
    congrArg String.ofList (Text.substituteFrom_singleton _ _ _)
  rw [stringLiteral, quotes, backslashes, List.flatMap_assoc]
  congr 4
  funext c
  by_cases backslash : c = '\\'
  · subst backslash
    rfl
  · by_cases quote : c = '"'
    · subst quote
      rfl
    · simp [backslash, quote]

end Resumable
