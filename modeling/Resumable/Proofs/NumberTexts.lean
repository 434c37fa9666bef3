import Resumable.Proofs.Pretty

/-!
# The texts of binary numbers are numbers

The text of a finite binary number, positional or scientific, is one number with a point or an
exponent, whatever its digits are, and so it is read as a binary number, unless it exceeds the binary
range (`isText_realText`).  Which binary number is read is another matter.  The texts of numbers are
thus always read to their end (`Json.Number.isReadable_real`).
-/

namespace Resumable

/-! ## Shortest decimals -/

namespace Decimal

variable {tie : Tie} {x : Float}

/-- A multiple of a step that is not below a positive number is not zero. -/
theorem pos_of_inside {m n step low high : Nat} (positive : 0 < low)
    (inside : (if m % 2 = 0 then decide (low ≤ n * step) && decide (n * step ≤ high)
      else decide (low < n * step) && decide (n * step < high)) = true) : 0 < n := by
  refine Nat.pos_of_ne_zero fun isZero => ?_
  rw [isZero, Nat.zero_mul] at inside
  split at inside
  · simp only [Bool.and_eq_true, decide_eq_true_eq] at inside
    omega
  · simp at inside

/-- What is nearest to a number that is not zero and rounds to it is not zero. -/
theorem pos_of_onGrid? {exponent : Int} {c : Nat} (notZero : significand x ≠ 0)
    (found : onGrid? tie x exponent = some c) : 0 < c := by
  have gap : lowerGap x ≤ 2 := by
    unfold lowerGap
    split <;> omega
  unfold onGrid? at found
  extract_lets quarter step scale m value low high below inside rest nearer at found
  have scaled : 0 < scale := Nat.mul_pos (Nat.pow_pos (by decide)) (Nat.pow_pos (by decide))
  have quarters : 0 < 4 * m - lowerGap x := by
    have positive : 0 < m := Nat.pos_of_ne_zero notZero
    omega
  have positive : 0 < low := Nat.mul_pos quarters scaled
  split at found
  · rename_i isInside
    exact Option.some.inj found ▸ pos_of_inside positive isInside
  split at found
  · rename_i isInside
    exact Option.some.inj found ▸ pos_of_inside positive isInside
  split at found
  · rename_i isInside
    exact Option.some.inj found ▸ pos_of_inside positive isInside
  · cases found

/-- Zero is written without any scaling. -/
theorem exponent_shortest (zero : (shortest tie x).digits = 0) : (shortest tie x).exponent = 0 := by
  rw [shortest] at zero ⊢
  split
  · rfl
  · rename_i notZero
    rw [if_neg notZero] at zero
    dsimp only at zero ⊢
    cases search : (List.range 20).findSome? _ with
    | none => rfl
    | some d =>
      rw [search] at zero
      obtain ⟨i, -, found⟩ := List.exists_of_findSome?_eq_some search
      obtain ⟨c, isFound, rfl⟩ := Option.map_eq_some_iff.1 found
      exact absurd zero (Nat.pos_iff_ne_zero.1 (pos_of_onGrid? notZero isFound))

/-! ## Digits -/

theorem toList_digitText (d : Decimal) : d.digitText.toList = Nat.toDigits 10 d.digits := by
  rw [digitText, Nat.toString_eq_ofList_toDigits, String.toList_ofList]

end Decimal

theorem exists_digitChar {c : Char} (digit : c.isDigit = true) : ∃ d < 10, c = Nat.digitChar d := by
  have ofNat : ∀ d < 10, Char.ofNat (48 + d) = Nat.digitChar d := by decide
  obtain ⟨low, high⟩ : 48 ≤ c.toNat ∧ c.toNat ≤ 57 := by
    simpa [Char.isDigit, UInt32.le_iff_toNat_le] using digit
  refine ⟨c.toNat - 48, by omega, ?_⟩
  rw [← ofNat _ (by omega), Nat.add_sub_cancel' low, Char.ofNat_toNat]

/-- The characters are digits of a whole number: there is one, and only a single one is zero at the
front. -/
def IsWhole (text : List Char) : Prop :=
  ∃ first rest, text = first :: rest ∧ first.isDigit = true ∧ (∀ c ∈ rest, c.isDigit = true) ∧
    (first = '0' → rest = [])

/-- A single digit may be any. -/
theorem isWhole_single {c : Char} (digit : c.isDigit = true) : IsWhole [c] :=
  ⟨c, [], rfl, digit, List.forall_mem_nil _, fun _ => rfl⟩

theorem isDigit_of_mem_toDigits {n : Nat} : ∀ c ∈ Nat.toDigits 10 n, c.isDigit = true :=
  fun _ mem => Nat.isDigit_of_mem_toDigits (by decide) (by decide) mem

theorem digitChar_ne_zero : ∀ d < 10, 0 < d → Nat.digitChar d ≠ '0' := by decide

/-- The first digit of a positive number. -/
theorem toDigits_eq_cons {n : Nat} (positive : 0 < n) :
    ∃ first rest, Nat.toDigits 10 n = first :: rest ∧ first ≠ '0' := by
  induction n using Nat.strongRecOn with
  | ind n ih =>
    by_cases single : n < 10
    · exact ⟨_, [], Nat.toDigits_of_lt_base single, digitChar_ne_zero n single positive⟩
    · obtain ⟨first, rest, digits, notZero⟩ := ih (n / 10) (by omega) (by omega)
      refine ⟨first, rest ++ [Nat.digitChar (n % 10)], ?_, notZero⟩
      rw [Nat.toDigits_of_base_le (by decide) (by omega), digits, List.cons_append]

/-- Digits of a positive number with more digits behind them. -/
theorem isWhole_of_prefix {n : Nat} (positive : 0 < n) {text before after : List Char}
    (digits : Nat.toDigits 10 n = before ++ after) (notEmpty : before ≠ [])
    (more : ∀ c ∈ text, c.isDigit = true) : IsWhole (before ++ text) := by
  obtain ⟨first, rest, isFirst, notZero⟩ := toDigits_eq_cons positive
  obtain ⟨c, before, rfl⟩ := List.exists_cons_of_ne_nil notEmpty
  have all := isDigit_of_mem_toDigits (n := n)
  rw [digits] at all
  obtain ⟨⟨isDigit, inside⟩, -⟩ := List.forall_mem_append.1 all |>.imp_left List.forall_mem_cons.1
  obtain rfl : c = first := by
    rw [digits] at isFirst
    exact (List.cons.inj isFirst).1
  exact ⟨c, before ++ text, rfl, isDigit, List.forall_mem_append.2 ⟨inside, more⟩,
    fun isZero => absurd isZero notZero⟩

theorem isDigit_of_mem_zeros {n : Nat} : ∀ c ∈ (Decimal.zeros n).toList, c.isDigit = true := by
  intro c mem
  rw [Decimal.zeros, String.toList_ofList] at mem
  rw [List.eq_of_mem_replicate mem]
  rfl

namespace Decimal

variable {d : Decimal}

/-- Whole numbers are digits. -/
theorem isWhole_positional (whole : 0 ≤ d.exponent) (zero : d.digits = 0 → d.exponent = 0) :
    IsWhole d.positional.toList := by
  rw [positional, if_pos whole, String.toList_append, d.toList_digitText]
  rcases Nat.eq_zero_or_pos d.digits with isZero | positive
  · rw [isZero, zero isZero]
    exact isWhole_single rfl
  · exact isWhole_of_prefix positive (List.append_nil _).symm Nat.toDigits_ne_nil isDigit_of_mem_zeros

/-- Numbers with a fraction are digits with a point in between. -/
theorem exists_places (fraction : d.exponent < 0) : ∃ before places : List Char,
    d.positional.toList = before ++ '.' :: places ∧ IsWhole before ∧ places ≠ [] ∧
      ∀ c ∈ places, c.isDigit = true := by
  have all := isDigit_of_mem_toDigits (n := d.digits)
  rw [positional, if_neg (by omega)]
  dsimp only
  rw [d.toList_digitText]
  split
  · rename_i inside
    generalize isBefore : (Nat.toDigits 10 d.digits).take
      ((Nat.toDigits 10 d.digits).length - (-d.exponent).toNat) = before
    generalize isAfter : (Nat.toDigits 10 d.digits).drop
      ((Nat.toDigits 10 d.digits).length - (-d.exponent).toNat) = after
    have parts : Nat.toDigits 10 d.digits = before ++ after := by
      rw [← isBefore, ← isAfter, List.take_append_drop]
    have notEmpty : before ≠ [] ∧ after ≠ [] := by
      rw [← List.length_pos_iff, ← List.length_pos_iff, ← isBefore, ← isAfter, List.length_take,
        List.length_drop]
      omega
    have positive : 0 < d.digits := by
      refine Nat.pos_of_ne_zero fun isZero => ?_
      rw [isZero, Nat.toDigits_zero, List.length_singleton] at inside
      omega
    have isWhole := isWhole_of_prefix positive parts notEmpty.1 (List.forall_mem_nil _)
    rw [List.append_nil] at isWhole
    rw [parts] at all
    exact ⟨before, after, by simp, isWhole, notEmpty.2, (List.forall_mem_append.1 all).2⟩
  · generalize (-d.exponent).toNat - (Nat.toDigits 10 d.digits).length = count
    refine ⟨['0'], (zeros count).toList ++ Nat.toDigits 10 d.digits, ?_, isWhole_single rfl, by simp,
      List.forall_mem_append.2 ⟨isDigit_of_mem_zeros, all⟩⟩
    rw [String.toList_append, String.toList_append, d.toList_digitText]
    rfl

end Decimal

namespace Json

/-! ## Scanning a number -/

/-- At the end of the text the scanner is in that phase of a number, which is real or not so far. -/
def Reaches (text : List Char) (phase : NumeralPhase) (isReal : Bool) : Prop :=
  ∃ t : Numeral, t.isReal = isReal ∧
    ∀ rest, Scanner.idle.scan? (text ++ rest) = (Scanner.number phase t).scan? rest

theorem Numeral.isReal_addWhole (t : Numeral) (digit : Nat) : (t.addWhole digit).isReal = t.isReal := by
  unfold addWhole
  split
  · rfl
  · split <;> rfl

theorem Numeral.isReal_addFraction (t : Numeral) (digit : Nat) :
    (t.addFraction digit).isReal = t.isReal := by
  unfold addFraction
  split
  · rfl
  · split <;> rfl

theorem start_digit : ∀ d < 10, Scanner.start (Nat.digitChar d) =
    ([], ((Numeral.signed false).continue? .sign (Nat.digitChar d)).map fun (phase, t) =>
      .number phase t) := by
  decide

namespace Reaches

variable {text : List Char} {phase phase' : NumeralPhase} {isReal isReal' : Bool} {c : Char}

/-- One more character of the number. -/
theorem snoc (reached : Reaches text phase isReal)
    (goesOn : ∀ t : Numeral, t.isReal = isReal →
      ∃ t', t.continue? phase c = some (phase', t') ∧ t'.isReal = isReal') :
    Reaches (text ++ [c]) phase' isReal' := by
  obtain ⟨t, real, scanned⟩ := reached
  obtain ⟨t', continued, real'⟩ := goesOn t real
  have stepped : (Scanner.number phase t).step c = ([], some (.number phase' t')) := by
    rw [Scanner.step, Scanner.continueNumber, continued]
  refine ⟨t', real', fun rest => ?_⟩
  rw [List.append_assoc, scanned, List.singleton_append, Scanner.scan?_cons_quiet stepped]

/-- The first digit, behind a sign or without one. -/
theorem first {sign : List Char} (isSign : sign = [] ∨ sign = ['-']) (digit : c.isDigit = true) :
    Reaches (sign ++ [c]) (if c = '0' then .zero else .whole) false := by
  have begun (t : Numeral) : t.continue? .sign c =
      some (if c = '0' then .zero else .whole, t.addWhole (digitValue c)) := by
    rw [Numeral.continue?]
    by_cases isZero : c = '0'
    · rw [if_pos isZero, if_pos isZero, isZero]
      rfl
    · rw [if_neg isZero, if_neg isZero, if_pos digit]
  rcases isSign with rfl | rfl
  · have started : Scanner.idle.step c =
        ([], ((Numeral.signed false).continue? .sign c).map fun (phase, t) => .number phase t) := by
      obtain ⟨d, small, rfl⟩ := exists_digitChar digit
      exact start_digit d small
    rw [begun] at started
    exact ⟨_, Numeral.isReal_addWhole _ _, fun rest => Scanner.scan?_cons_quiet started rest⟩
  · have minus : Scanner.idle.step '-' = ([], some (.number .sign (.signed true))) := rfl
    have signed : Reaches ['-'] .sign false :=
      ⟨.signed true, rfl, fun rest => Scanner.scan?_cons_quiet minus rest⟩
    exact signed.snoc fun t real => ⟨_, begun t, (Numeral.isReal_addWhole t _).trans real⟩

/-- More digits of a part of which there is one. -/
theorem digits (reached : Reaches text phase isReal)
    (goesOn : phase = .whole ∨ phase = .fraction ∨ phase = .exponent) {more : List Char}
    (all : ∀ c ∈ more, c.isDigit = true) : Reaches (text ++ more) phase isReal := by
  induction more generalizing text with
  | nil => rwa [List.append_nil]
  | cons c more ih =>
    obtain ⟨digit, all⟩ := List.forall_mem_cons.1 all
    rw [List.append_cons]
    refine ih (reached.snoc fun t real => ?_) all
    rcases goesOn with rfl | rfl | rfl
    · exact ⟨_, by rw [Numeral.continue?, if_pos digit], (Numeral.isReal_addWhole t _).trans real⟩
    · exact ⟨_, by rw [Numeral.continue?, if_pos digit], (Numeral.isReal_addFraction t _).trans real⟩
    · exact ⟨t.addExponent (digitValue c), by rw [Numeral.continue?, if_pos digit], real⟩

/-- The digits before the point. -/
theorem whole {sign digits : List Char} (isSign : sign = [] ∨ sign = ['-']) (isWhole : IsWhole digits) :
    ∃ phase, (phase = .zero ∨ phase = .whole) ∧ Reaches (sign ++ digits) phase false := by
  obtain ⟨c, rest, rfl, digit, all, single⟩ := isWhole
  have begun := first isSign digit
  rw [List.append_cons]
  by_cases isZero : c = '0'
  · rw [single isZero, List.append_nil]
    rw [if_pos isZero] at begun
    exact ⟨.zero, .inl rfl, begun⟩
  · rw [if_neg isZero] at begun
    exact ⟨.whole, .inr rfl, begun.digits (.inl rfl) all⟩

/-- A point with digits behind it. -/
theorem fraction (reached : Reaches text phase false) (isWhole : phase = .zero ∨ phase = .whole)
    {places : List Char} (notEmpty : places ≠ []) (all : ∀ c ∈ places, c.isDigit = true) :
    Reaches (text ++ '.' :: places) .fraction true := by
  obtain ⟨c, places, rfl⟩ := List.exists_cons_of_ne_nil notEmpty
  obtain ⟨digit, all⟩ := List.forall_mem_cons.1 all
  have point : Reaches (text ++ ['.']) .point true := by
    refine reached.snoc fun t real => ⟨{ t with isReal := true }, ?_, rfl⟩
    rcases isWhole with rfl | rfl <;> rfl
  have place : Reaches (text ++ ['.'] ++ [c]) .fraction true := point.snoc fun t real =>
    ⟨_, by rw [Numeral.continue?, if_pos digit], (Numeral.isReal_addFraction t _).trans real⟩
  rw [List.append_cons, List.append_cons]
  exact place.digits (.inr (.inl rfl)) all

/-- The mark of an exponent, its sign and its digits. -/
theorem exponent (reached : Reaches text phase isReal)
    (behind : phase = .zero ∨ phase = .whole ∨ phase = .fraction ∧ isReal = true) {sign : Char}
    (isSign : sign = '+' ∨ sign = '-') {exponent : List Char} (notEmpty : exponent ≠ [])
    (all : ∀ c ∈ exponent, c.isDigit = true) :
    Reaches (text ++ 'e' :: sign :: exponent) .exponent true := by
  obtain ⟨c, exponent, rfl⟩ := List.exists_cons_of_ne_nil notEmpty
  obtain ⟨digit, all⟩ := List.forall_mem_cons.1 all
  have mark : Reaches (text ++ ['e']) .exponentMark true := by
    refine reached.snoc fun t real => ?_
    rcases behind with rfl | rfl | ⟨rfl, rfl⟩
    · exact ⟨_, rfl, rfl⟩
    · exact ⟨_, rfl, rfl⟩
    · exact ⟨t, rfl, real⟩
  have signed : Reaches (text ++ ['e'] ++ [sign]) .exponentSign true := by
    refine mark.snoc fun t real => ?_
    rcases isSign with rfl | rfl
    · exact ⟨t, rfl, real⟩
    · exact ⟨_, rfl, real⟩
  have begun : Reaches (text ++ ['e'] ++ [sign] ++ [c]) .exponent true := signed.snoc fun t real =>
    ⟨t.addExponent (digitValue c), by rw [Numeral.continue?, if_pos digit], real⟩
  rw [List.append_cons, List.append_cons, List.append_cons]
  exact begun.digits (.inr (.inr rfl)) all

/-- A text that may end there is one number. -/
theorem isText (reached : Reaches text phase true) (canEnd : phase.canEnd = true) :
    ∃ y : Option Float, (Token.number (y.map .real)).IsText text := by
  obtain ⟨t, real, scanned⟩ := reached
  refine ⟨(Numeral.magnitude? t.significand t.power).map fun x => if t.negative then -x else x, ?_⟩
  have number : t.number? = ((Numeral.magnitude? t.significand t.power).map
      fun x => if t.negative then -x else x).map .real := by
    rw [Numeral.number?, real, Option.map_map]
    rfl
  have ended : Scanner.idle.scan? text = (Scanner.number phase t).scan? [] := by
    simpa only [List.append_nil] using scanned []
  change Scanner.idle.scan? text = _
  rw [ended, ← number]
  exact if_pos canEnd

end Reaches

/-! ## Binary numbers -/

theorem toList_signText (x : Float) : (signText x).toList = [] ∨ (signText x).toList = ['-'] := by
  unfold signText
  split
  · exact .inr rfl
  · exact .inl rfl

/-- The text is a number with a point or an exponent. -/
def IsRealText (text : List Char) : Prop :=
  ∃ phase : NumeralPhase, phase.canEnd = true ∧ Reaches text phase true

variable {sign : List Char} {d : Decimal}

/-- Whole numbers are written with one place behind the point. -/
theorem isRealText_whole (isSign : sign = [] ∨ sign = ['-']) (whole : 0 ≤ d.exponent)
    (zero : d.digits = 0 → d.exponent = 0) : IsRealText (sign ++ (d.positional ++ ".0").toList) := by
  obtain ⟨phase, isPhase, reached⟩ := Reaches.whole isSign (Decimal.isWhole_positional whole zero)
  rw [String.toList_append, ← List.append_assoc]
  have reached := reached.fraction isPhase (List.cons_ne_nil '0' []) (by simp)
  exact ⟨.fraction, rfl, reached⟩

/-- Numbers with a fraction. -/
theorem isRealText_fraction (isSign : sign = [] ∨ sign = ['-']) (fraction : d.exponent < 0) :
    IsRealText (sign ++ d.positional.toList) := by
  obtain ⟨before, places, text, isWhole, notEmpty, all⟩ := Decimal.exists_places fraction
  obtain ⟨phase, isPhase, reached⟩ := Reaches.whole isSign isWhole
  rw [text, ← List.append_assoc]
  exact ⟨.fraction, rfl, reached.fraction isPhase notEmpty all⟩

/-- Numbers that are written with an exponent. -/
theorem isRealText_scientific (isSign : sign = [] ∨ sign = ['-']) :
    IsRealText (sign ++ d.scientific.toList) := by
  obtain ⟨c, rest, digits⟩ := List.exists_cons_of_ne_nil (Nat.toDigits_ne_nil (n := d.digits) (b := 10))
  have all := isDigit_of_mem_toDigits (n := d.digits)
  rw [digits, List.forall_mem_cons] at all
  obtain ⟨mark, isMark, text⟩ : ∃ mark, (mark = '+' ∨ mark = '-') ∧ d.scientific.toList =
      [c] ++ (if rest = [] then [] else '.' :: rest) ++
        'e' :: mark :: Nat.toDigits 10 d.scientificExponent.natAbs := by
    rw [Decimal.scientific, d.toList_digitText, digits, Nat.toString_eq_ofList_toDigits]
    by_cases negative : d.scientificExponent < 0
    · exact ⟨'-', .inr rfl, by cases rest <;> simp [negative]⟩
    · exact ⟨'+', .inl rfl, by cases rest <;> simp [negative]⟩
  obtain ⟨phase, isPhase, reached⟩ := Reaches.whole isSign (isWhole_single all.1)
  rw [text, ← List.append_assoc, ← List.append_assoc]
  refine ⟨.exponent, rfl, ?_⟩
  split
  · rw [List.append_nil]
    exact reached.exponent (isPhase.imp_right .inl) isMark Nat.toDigits_ne_nil isDigit_of_mem_toDigits
  · rename_i more
    exact (reached.fraction isPhase more all.2).exponent (.inr (.inr ⟨rfl, rfl⟩)) isMark
      Nat.toDigits_ne_nil isDigit_of_mem_toDigits

/-- The text of a finite number is one number, and that of any other number is the word `null`. -/
theorem isText_realText (x : Float) : ∃ token : Token, token.IsText (realText x).toList ∧
    (token = .null ∨ ∃ y : Option Float, token = .number (y.map .real)) := by
  unfold realText
  split
  · exact ⟨.null, rfl, .inl rfl⟩
  · have isReal : IsRealText ((signText x).toList ++ (let d := Decimal.shortest .toEven x
      if -5 ≤ d.scientificExponent ∧ d.scientificExponent ≤ 15 then
        if d.hasFraction then d.positional else d.positional ++ ".0"
      else d.scientific).toList) := by
      dsimp only
      split
      · split
        · rename_i fraction
          exact isRealText_fraction (toList_signText x) (of_decide_eq_true fraction)
        · rename_i whole
          rw [Decimal.hasFraction, decide_eq_true_eq] at whole
          exact isRealText_whole (toList_signText x) (by omega) Decimal.exponent_shortest
      · exact isRealText_scientific (toList_signText x)
    obtain ⟨phase, canEnd, reached⟩ := isReal
    obtain ⟨y, isText⟩ := reached.isText canEnd
    rw [String.toList_append]
    exact ⟨_, isText, .inr ⟨y, rfl⟩⟩

namespace Number

theorem isReadable_of_isText {n : Number} {token : Token} (d : Draft) (tokens : d.tokens = [token])
    (complete : d.isComplete = true) (isText : token.IsText n.text.toList) :
    n.IsReadable ∧ n.reread = d := by
  have reading : read n.text = ⟨d, true⟩ := read_eq_iff.2 ⟨complete, tokens ▸ .single isText⟩
  rw [IsReadable, reread, reading]
  exact ⟨rfl, rfl⟩

/-- What is read from the text of a binary number: a binary number, unless it is not finite or what
is read exceeds the binary range. -/
theorem reread_real (x : Float) : (Number.real x).IsReadable ∧
    ((Number.real x).reread = .null ∨ ∃ y : Option Float, (Number.real x).reread = .number (y.map .real)) := by
  obtain ⟨token, isText, rfl | ⟨y, rfl⟩⟩ := isText_realText x
  · obtain ⟨readable, isNull⟩ := isReadable_of_isText (n := .real x) .null rfl rfl isText
    exact ⟨readable, .inl isNull⟩
  · obtain ⟨readable, isNumber⟩ := isReadable_of_isText (n := .real x) (.number _) rfl rfl isText
    exact ⟨readable, .inr ⟨y, isNumber⟩⟩

/-- Spans are read back. -/
theorem isReadBack_word (word : UInt32) : (Number.integer word.toNat).IsReadBack :=
  isReadBack_of_isText (isText_ofNat word.toNat (Nat.lt_trans word.toNat_lt_size (by decide)))

end Number

end Json

end Resumable
