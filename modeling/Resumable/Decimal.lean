/-!
# Decimal text of binary numbers

A finite `Float` stands for `significand · 2 ^ binaryExponent`, and every real number between the
middles to its two neighbours rounds to it. `Decimal.shortest` is the decimal with the fewest
digits among those that round to the number, found in exact arithmetic on natural numbers;
`positional` and `scientific` lay a decimal out as text.
-/

namespace Resumable

/-- The decimal `digits · 10 ^ exponent`. -/
structure Decimal where
  digits : Nat
  exponent : Int
  deriving Repr, DecidableEq

/-- Which of two equally near decimals is taken. -/
inductive Tie where
  | toEven
  | up
  deriving Repr, DecidableEq

namespace Decimal

/-! ## The parts of a binary number -/

/-- The sign bit, set for `-0.0` too. -/
def isNegative (x : Float) : Bool := x.toBits >>> 63 == 1

/-- The exponent field. -/
def exponentField (x : Float) : Nat := ((x.toBits >>> 52) &&& 0x7ff).toNat

/-- The leading one of a significand, which stands before 52 binary places. -/
def leadingOne : Nat := 0x10000000000000

/-- The significand, with the leading one that normal numbers leave out. -/
def significand (x : Float) : Nat :=
  (x.toBits &&& 0xfffffffffffff).toNat + if exponentField x = 0 then 0 else leadingOne

/-- The power of two that the significand counts. -/
def binaryExponent (x : Float) : Int := (max (exponentField x) 1 : Nat) - 1075

/-- The quarter units below the number that still round to it. The gap to the next lower number is
half as wide at a power of two. -/
def lowerGap (x : Float) : Nat :=
  if significand x = leadingOne ∧ 1 < exponentField x then 1 else 2

/-! ## The fewest digits -/

/-- The multiple of `10 ^ exponent` nearest to the magnitude of `x`, if it rounds to `x`. All
quantities are multiples of a common unit: `step` is the grid's width, and `value` the number. -/
def onGrid? (tie : Tie) (x : Float) (exponent : Int) : Option Nat :=
  let quarter := binaryExponent x - 2
  let step := Nat.pow 10 exponent.toNat * Nat.pow 2 (-quarter).toNat
  let scale := Nat.pow 2 quarter.toNat * Nat.pow 10 (-exponent).toNat
  let m := significand x
  let value := 4 * m * scale
  let low := (4 * m - lowerGap x) * scale
  let high := (4 * m + 2) * scale
  let below := value / step
  let inside (c : Nat) : Bool :=
    if m % 2 = 0 then low ≤ c * step && c * step ≤ high
    else low < c * step && c * step < high
  let rest := 2 * (value % step)
  let nearer :=
    if rest < step then below
    else if step < rest then below + 1
    else match tie with
      | .toEven => if below % 2 = 0 then below else below + 1
      | .up => below + 1
  if inside nearer then some nearer
  else if inside below then some below
  else if inside (below + 1) then some (below + 1)
  else none

/-- An exponent whose power of ten exceeds the magnitude of `x`. -/
def leadingExponent (x : Float) : Int :=
  ((significand x).log2 + 1 + binaryExponent x) * 30103 / 100000 + 1

/-- The decimal with the fewest digits that rounds to the magnitude of a finite `x`, and the
nearest of those. Grids are tried from coarse to fine; seventeen digits always suffice. -/
def shortest (tie : Tie) (x : Float) : Decimal :=
  if significand x = 0 then ⟨0, 0⟩
  else
    let found := (List.range 20).findSome? fun (i : Nat) =>
      let exponent := leadingExponent x - i
      (onGrid? tie x exponent).map (⟨·, exponent⟩)
    found.getD ⟨0, 0⟩

/-! ## Layout -/

/-- The text `0…0` of `n` zeros. -/
def zeros (n : Nat) : String := String.ofList (List.replicate n '0')

/-- The digits of a decimal. -/
def digitText (d : Decimal) : String := toString d.digits

/-- The exponent of the first digit. -/
def scientificExponent (d : Decimal) : Int := d.digitText.length - 1 + d.exponent

/-- Whether the positional text has a fraction. -/
def hasFraction (d : Decimal) : Bool := d.exponent < 0

/-- The digits with the point where it belongs, and no point in a whole number. -/
def positional (d : Decimal) : String :=
  let digits := d.digitText.toList
  if d.exponent ≥ 0 then d.digitText ++ zeros d.exponent.toNat
  else
    let places := (-d.exponent).toNat
    if places < digits.length then
      String.ofList (digits.take (digits.length - places)) ++ "." ++
        String.ofList (digits.drop (digits.length - places))
    else "0." ++ zeros (places - digits.length) ++ d.digitText

/-- One digit, a point if more follow, and the exponent with its sign. -/
def scientific (d : Decimal) : String :=
  let exponent := d.scientificExponent
  let mark := if exponent < 0 then "e-" else "e+"
  let digits := d.digitText.toList
  String.ofList (digits.take 1) ++ (if digits.length = 1 then "" else ".") ++
    String.ofList (digits.drop 1) ++ mark ++ toString exponent.natAbs

end Decimal

/-- The sign that `x` is written with. -/
def signText (x : Float) : String := if Decimal.isNegative x then "-" else ""

/-- Every digit of `x` in place, with as few significant digits as identify it, and no exponent. -/
def positionalText (x : Float) : String :=
  if x.isNaN then "NaN"
  else if x.isInf then signText x ++ "inf"
  else signText x ++ (Decimal.shortest .up x).positional

end Resumable
