import Resumable.Json.Value

/-!
# The tokens of a JSON text

`Scanner.step` takes a text character by character and hands out its tokens. A character can end a
number and begin the next token, so a step may give two tokens; a step with no next state has met a
character that cannot stand there.
-/

namespace Resumable.Json

/-- The smallest parts of a JSON text. The number of a token is absent when it exceeds the binary
range, and its string when half a surrogate pair was escaped. -/
inductive Token where
  | openArray
  | closeArray
  | openObject
  | closeObject
  | comma
  | colon
  | null
  | boolean (value : Bool)
  | number (value : Option Number)
  | string (value : Option String)
  deriving Repr, DecidableEq

/-! ## Numbers -/

/-- The digits of a number as they are read: `significand · 10 ^ scale`, where the significand holds
the leading digits that fit in 64 bits. -/
structure Numeral where
  negative : Bool
  significand : Nat
  scale : Int
  /-- A digit did not fit, so that the number is no integer of 64 bits. -/
  overflown : Bool
  /-- A digit after the point did not fit; the digits after it count for nothing. -/
  cut : Bool
  /-- A point or an exponent was read. -/
  isReal : Bool
  exponentNegative : Bool
  exponent : Nat
  deriving Repr, DecidableEq

namespace Numeral

/-- Nothing but the sign. -/
def signed (negative : Bool) : Numeral := ⟨negative, 0, 0, false, false, false, false, 0⟩

/-- The significand with one more digit, if it fits in 64 bits. -/
def append? (t : Numeral) (digit : Nat) : Option Nat :=
  let longer := t.significand * 10 + digit
  if longer < UInt64.size then some longer else none

/-- Adds a digit before the point. From the first digit that does not fit, digits only scale. -/
def addWhole (t : Numeral) (digit : Nat) : Numeral :=
  if t.overflown then { t with scale := t.scale + 1 }
  else match t.append? digit with
    | some longer => { t with significand := longer }
    | none => { t with scale := t.scale + 1, overflown := true }

/-- Adds a digit after the point. From the first digit that does not fit, digits are dropped. -/
def addFraction (t : Numeral) (digit : Nat) : Numeral :=
  if t.cut then t
  else match t.append? digit with
    | some longer => { t with significand := longer, scale := t.scale - 1 }
    | none => { t with cut := true }

/-- Adds a digit of the exponent. -/
def addExponent (t : Numeral) (digit : Nat) : Numeral :=
  { t with exponent := t.exponent * 10 + digit }

/-- The power of ten of the significand. -/
def power (t : Numeral) : Int :=
  t.scale + if t.exponentNegative then -(t.exponent : Int) else t.exponent

/-- The number `10 ^ n` in binary. -/
def tenTo (n : Nat) : Float := Float.ofScientific 1 false n

/-- The binary number of `significand · 10 ^ power`, by at most two roundings of a product or
quotient; absent when it is too large. A quotient below `10 ^ -616` is zero for every significand of
64 bits. -/
def magnitude? (significand : Nat) (power : Int) : Option Float :=
  let x := Float.ofNat significand
  if significand = 0 then some x
  else if 308 < power then none
  else if 0 ≤ power then
    let y := x * tenTo power.toNat
    if y.isInf then none else some y
  else if -308 ≤ power then some (x / tenTo (-power).toNat)
  else if -616 ≤ power then some (x / tenTo 308 / tenTo (-power - 308).toNat)
  else some 0

/-- The number that was read. An integer that fits in 64 bits stays one, save for `-0`. -/
def number? (t : Numeral) : Option Number :=
  if t.isReal || t.overflown then
    (magnitude? t.significand t.power).map fun x => .real (if t.negative then -x else x)
  else if !t.negative then some (.integer t.significand)
  else if 0 < t.significand && t.significand ≤ 0x8000000000000000 then some (.integer (-t.significand))
  else some (.real (-Float.ofNat t.significand))

end Numeral

/-- How far a number was read. -/
inductive NumeralPhase where
  | sign
  | zero
  | whole
  | point
  | fraction
  | exponentMark
  | exponentSign
  | exponent
  deriving Repr, DecidableEq

/-- Whether a number may end here. -/
def NumeralPhase.canEnd : NumeralPhase → Bool
  | .zero | .whole | .fraction | .exponent => true
  | _ => false

/-- The value of a decimal digit. -/
def digitValue (c : Char) : Nat := c.toNat - '0'.toNat

/-- Continues a number with a character that belongs to it. -/
def Numeral.continue? (t : Numeral) (phase : NumeralPhase) (c : Char) :
    Option (NumeralPhase × Numeral) :=
  let isMark := c = 'e' ∨ c = 'E'
  match phase with
  | .sign =>
    if c = '0' then some (.zero, t.addWhole 0)
    else if c.isDigit then some (.whole, t.addWhole (digitValue c))
    else none
  | .zero =>
    if c = '.' then some (.point, { t with isReal := true })
    else if isMark then some (.exponentMark, { t with isReal := true })
    else none
  | .whole =>
    if c.isDigit then some (.whole, t.addWhole (digitValue c))
    else if c = '.' then some (.point, { t with isReal := true })
    else if isMark then some (.exponentMark, { t with isReal := true })
    else none
  | .point => if c.isDigit then some (.fraction, t.addFraction (digitValue c)) else none
  | .fraction =>
    if c.isDigit then some (.fraction, t.addFraction (digitValue c))
    else if isMark then some (.exponentMark, t)
    else none
  | .exponentMark =>
    if c = '+' then some (.exponentSign, t)
    else if c = '-' then some (.exponentSign, { t with exponentNegative := true })
    else if c.isDigit then some (.exponent, t.addExponent (digitValue c))
    else none
  | .exponentSign | .exponent =>
    if c.isDigit then some (.exponent, t.addExponent (digitValue c)) else none

/-! ## Strings -/

/-- The characters of a string as they are read, the last one first. -/
structure StringDraft where
  characters : List Char
  /-- The first half of a surrogate pair that waits for the second. -/
  lead : Option Nat
  /-- No half of a surrogate pair stood alone. -/
  paired : Bool
  deriving Repr, DecidableEq

namespace StringDraft

/-- The string of which nothing was read. -/
def empty : StringDraft := ⟨[], none, true⟩

/-- Adds a character. -/
def push (s : StringDraft) (c : Char) : StringDraft :=
  ⟨c :: s.characters, none, s.paired && s.lead.isNone⟩

/-- Adds an escaped 16-bit unit. -/
def pushUnit (s : StringDraft) (unit : Nat) : StringDraft :=
  if 0xd800 ≤ unit ∧ unit < 0xdc00 then
    ⟨s.characters, some unit, s.paired && s.lead.isNone⟩
  else if 0xdc00 ≤ unit ∧ unit < 0xe000 then
    match s.lead with
    | some lead =>
      ⟨Char.ofNat (0x10000 + (lead - 0xd800) * 0x400 + (unit - 0xdc00)) :: s.characters, none,
        s.paired⟩
    | none => ⟨s.characters, none, false⟩
  else s.push (Char.ofNat unit)

/-- The string, unless half a surrogate pair stands alone. -/
def text? (s : StringDraft) : Option String :=
  if s.paired && s.lead.isNone then some (String.ofList s.characters.reverse) else none

end StringDraft

/-- How far an escape was read: not begun, its backslash, or the unit of the hexadecimal digits so
far and the number of digits still to come. -/
inductive EscapePhase where
  | none
  | backslash
  | unit (value : Nat) (left : Nat)
  deriving Repr, DecidableEq

/-- The character that a letter after a backslash stands for. -/
def escaped? (c : Char) : Option Char :=
  if c = '"' ∨ c = '\\' ∨ c = '/' then some c
  else if c = 'b' then some (Char.ofNat 8)
  else if c = 'f' then some (Char.ofNat 12)
  else if c = 'n' then some '\n'
  else if c = 'r' then some '\r'
  else if c = 't' then some '\t'
  else none

/-- The value of a hexadecimal digit. -/
def hexValue? (c : Char) : Option Nat :=
  if c.isDigit then some (digitValue c)
  else if 'a' ≤ c ∧ c ≤ 'f' then some (c.toNat - 'a'.toNat + 10)
  else if 'A' ≤ c ∧ c ≤ 'F' then some (c.toNat - 'A'.toNat + 10)
  else none

/-! ## The scanner -/

/-- What the scanner is in the middle of. A word is followed by the letters still expected and the
token that it stands for. -/
inductive Scanner where
  | idle
  | word (left : List Char) (token : Token)
  | number (phase : NumeralPhase) (text : Numeral)
  | string (phase : EscapePhase) (text : StringDraft)
  deriving Repr, DecidableEq

namespace Scanner

/-- Blanks are these four characters. -/
def isBlank (c : Char) : Bool := c = ' ' || c = '\n' || c = '\r' || c = '\t'

/-- Begins a token. -/
def start (c : Char) : List Token × Option Scanner :=
  if isBlank c then ([], some idle)
  else if c = '[' then ([.openArray], some idle)
  else if c = ']' then ([.closeArray], some idle)
  else if c = '\x7b' then ([.openObject], some idle)
  else if c = '\x7d' then ([.closeObject], some idle)
  else if c = ',' then ([.comma], some idle)
  else if c = ':' then ([.colon], some idle)
  else if c = '"' then ([], some (.string .none .empty))
  else if c = '-' then ([], some (.number .sign (.signed true)))
  else if c.isDigit then
    ([], ((Numeral.signed false).continue? .sign c).map fun (phase, t) => .number phase t)
  else if c = 't' then ([], some (.word ['r', 'u', 'e'] (.boolean true)))
  else if c = 'f' then ([], some (.word ['a', 'l', 's', 'e'] (.boolean false)))
  else if c = 'n' then ([], some (.word ['u', 'l', 'l'] .null))
  else ([], none)

/-- Continues a word. -/
def continueWord (left : List Char) (token : Token) (c : Char) : List Token × Option Scanner :=
  match left with
  | [] => ([], none)
  | [last] => if c = last then ([token], some idle) else ([], none)
  | next :: rest => if c = next then ([], some (.word rest token)) else ([], none)

/-- Continues a number, or ends it and begins another token. A zero is never followed by a digit. -/
def continueNumber (phase : NumeralPhase) (t : Numeral) (c : Char) :
    List Token × Option Scanner :=
  match t.continue? phase c with
  | some (phase, t) => ([], some (.number phase t))
  | none =>
    if phase.canEnd && !(phase = .zero && c.isDigit) then
      let (tokens, next) := start c
      (.number t.number? :: tokens, next)
    else ([], none)

/-- Continues a string. Control characters have to be escaped. -/
def continueString (phase : EscapePhase) (s : StringDraft) (c : Char) :
    List Token × Option Scanner :=
  match phase with
  | .none =>
    if c = '"' then ([.string s.text?], some idle)
    else if c = '\\' then ([], some (.string .backslash s))
    else if c.toNat < 32 then ([], none)
    else ([], some (.string .none (s.push c)))
  | .backslash =>
    if c = 'u' then ([], some (.string (.unit 0 4) s))
    else ([], (escaped? c).map fun c => .string .none (s.push c))
  | .unit value left =>
    ([], (hexValue? c).map fun digit =>
      if left ≤ 1 then .string .none (s.pushUnit (value * 16 + digit))
      else .string (.unit (value * 16 + digit) (left - 1)) s)

/-- Takes the next character. -/
def step (s : Scanner) (c : Char) : List Token × Option Scanner :=
  match s with
  | .idle => start c
  | .word left token => continueWord left token c
  | .number phase t => continueNumber phase t c
  | .string phase t => continueString phase t c

/-- Ends the text; only between tokens or after a whole number may it end. -/
def finish? (s : Scanner) : Option (List Token) :=
  match s with
  | .idle => some []
  | .number phase t => if phase.canEnd then some [.number t.number?] else none
  | _ => none

end Scanner

end Resumable.Json
