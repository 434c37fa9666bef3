import Resumable.Proofs.Lexing
import Resumable.Proofs.NumberTexts

/-!
# Texts with numerals

A numeral in base ten is what `NumeralPhase.next?` reads to an end.  With numerals there are three sorts of
lexemes, and a text splits into those that are the longest ones where they stand, with no word right behind a
numeral (`Script.Splits`).  So a text splits in one way only (`Splits.unique`).  Whether a lexeme may stand in
front of a text is up to the first character of that text: see `longest_word`, `longest_mark` and
`longest_numeral`.

Numerals in other bases, with separators, or of whole numbers of any size are not among the lexemes here.
-/

namespace Resumable.Script

/-! ## Numerals -/

/-- How far a numeral has been read. -/
inductive NumeralPhase where
  | start
  /-- Behind a zero at the front. -/
  | zero
  | whole
  /-- Behind a point at the front. -/
  | point
  | fraction
  | exponentMark
  | exponentSign
  | exponent
  deriving Repr, DecidableEq

namespace NumeralPhase

/-- What may come behind the digits in front of the point. -/
def behindWhole? (c : Char) : Option NumeralPhase :=
  if c = '.' then some fraction
  else if c = 'e' ∨ c = 'E' then some exponentMark
  else none

/-- One more character of a numeral. -/
def next? : NumeralPhase → Char → Option NumeralPhase
  | start, c =>
    if c = '0' then some zero
    else if c.isDigit then some whole
    else if c = '.' then some point
    else none
  | zero, c => behindWhole? c
  | whole, c => if c.isDigit then some whole else behindWhole? c
  | point, c => if c.isDigit then some fraction else none
  | fraction, c =>
    if c.isDigit then some fraction
    else if c = 'e' ∨ c = 'E' then some exponentMark
    else none
  | exponentMark, c =>
    if c.isDigit then some exponent
    else if c = '+' ∨ c = '-' then some exponentSign
    else none
  | exponentSign, c | exponent, c => if c.isDigit then some exponent else none

/-- The numeral may end there. -/
def canEnd : NumeralPhase → Bool
  | zero | whole | fraction | exponent => true
  | start | point | exponentMark | exponentSign => false

/-- Reads on to the end of a text. -/
def read? (phase : NumeralPhase) (text : List Char) : Option NumeralPhase := text.foldlM next? phase

theorem read?_append (phase : NumeralPhase) (text behind : List Char) :
    phase.read? (text ++ behind) = (phase.read? text).bind fun phase => phase.read? behind :=
  List.foldlM_append

theorem read?_cons (phase : NumeralPhase) (c : Char) (text : List Char) :
    phase.read? (c :: text) = (phase.next? c).bind fun phase => phase.read? text :=
  List.foldlM_cons

end NumeralPhase

/-- The text is a numeral. -/
def isNumeral (text : List Char) : Bool := (NumeralPhase.start.read? text).any NumeralPhase.canEnd

theorem isNumeral_iff {text : List Char} :
    isNumeral text = true ↔ ∃ phase, NumeralPhase.start.read? text = some phase ∧ phase.canEnd = true := by
  simp [isNumeral, Option.any_eq_true]

/-- A numeral begins with a digit, or with a point and a digit. -/
theorem exists_head_of_numeral {text : List Char} (numeral : isNumeral text = true) :
    ∃ c cs, text = c :: cs ∧ (c.isDigit = true ∨ c = '.' ∧ ∃ d ds, cs = d :: ds ∧ d.isDigit = true) := by
  obtain ⟨phase, reached, canEnd⟩ := isNumeral_iff.1 numeral
  cases text with
  | nil =>
    cases reached
    cases canEnd
  | cons c cs =>
    refine ⟨c, cs, rfl, ?_⟩
    obtain ⟨first, isFirst, reached⟩ := Option.bind_eq_some_iff.1
      ((NumeralPhase.read?_cons _ c cs).symm.trans reached)
    rw [NumeralPhase.next?] at isFirst
    split at isFirst
    · next isZero => exact .inl (isZero ▸ rfl)
    split at isFirst
    · next digit => exact .inl digit
    split at isFirst
    · next isPoint =>
      cases isFirst
      refine .inr ⟨isPoint, ?_⟩
      cases cs with
      | nil =>
        cases reached
        cases canEnd
      | cons d ds =>
        refine ⟨d, ds, rfl, ?_⟩
        obtain ⟨second, isSecond, -⟩ := Option.bind_eq_some_iff.1
          ((NumeralPhase.read?_cons _ d ds).symm.trans reached)
        by_contra notDigit
        have stops : NumeralPhase.point.next? d = none := if_neg notDigit
        cases isSecond.symm.trans stops
    · cases isFirst

/-- A numeral does not go on with a character that is not read behind it. -/
theorem not_isNumeral_append {text behind : List Char} {phase : NumeralPhase} {c : Char}
    (reached : NumeralPhase.start.read? text = some phase) (stops : phase.next? c = none) :
    isNumeral (text ++ c :: behind) = false := by
  rw [isNumeral, NumeralPhase.read?_append, reached, Option.bind_some, NumeralPhase.read?_cons, stops]
  rfl

namespace NumeralPhase

/-- More digits of a part of which there is one. -/
theorem read?_digits {phase : NumeralPhase} (goesOn : phase = whole ∨ phase = fraction) {digits : List Char}
    (all : ∀ c ∈ digits, c.isDigit = true) : phase.read? digits = some phase := by
  induction digits with
  | nil => rfl
  | cons c digits ih =>
    obtain ⟨digit, all⟩ := List.forall_mem_cons.1 all
    have next : phase.next? c = some phase := by
      rcases goesOn with rfl | rfl
      · exact if_pos digit
      · exact if_pos digit
    rw [read?_cons, next, Option.bind_some, ih all]

/-- The digits of a whole number. -/
theorem read?_whole {digits : List Char} (isWhole : IsWhole digits) :
    ∃ phase, (phase = zero ∨ phase = whole) ∧ start.read? digits = some phase := by
  obtain ⟨c, rest, rfl, digit, all, single⟩ := isWhole
  by_cases isZero : c = '0'
  · rw [single isZero, isZero]
    exact ⟨zero, .inl rfl, rfl⟩
  · have next : start.next? c = some whole := by rw [next?, if_neg isZero, if_pos digit]
    refine ⟨whole, .inr rfl, ?_⟩
    rw [read?_cons, next, Option.bind_some, read?_digits (.inl rfl) all]

/-- A point with digits behind it. -/
theorem read?_places {before places : List Char} (isWhole : IsWhole before)
    (all : ∀ c ∈ places, c.isDigit = true) : start.read? (before ++ '.' :: places) = some fraction := by
  obtain ⟨phase, isPhase, reached⟩ := read?_whole isWhole
  have next : phase.next? '.' = some fraction := by rcases isPhase with rfl | rfl <;> rfl
  rw [read?_append, reached, Option.bind_some, read?_cons, next, Option.bind_some, read?_digits (.inr rfl) all]

end NumeralPhase

/-- No mark begins with a numeral. -/
theorem not_isNumeral_of_mark {mark : String} {text : List Char} (isMark : mark ∈ marks)
    (begins : text <+: mark.toList) : isNumeral text = false := by
  have fronts : ∀ mark ∈ marks, ∀ front ∈ mark.toList.inits, isNumeral front = false := by decide
  exact fronts mark isMark text ((List.mem_inits _ _).2 begins)

/-! ## Lexemes -/

/-- The smallest parts of a text with numerals. -/
inductive Lexeme where
  | word (name : String)
  /-- A punctuator. -/
  | mark (text : String)
  | numeral (text : String)
  deriving Repr, DecidableEq

namespace Lexeme

/-- The text of a lexeme. -/
def text : Lexeme → List Char
  | word name => name.toList
  | mark text | numeral text => text.toList

variable (alphabet : Alphabet)

/-- The lexeme is one of the language. -/
def IsValid : Lexeme → Prop
  | word name => alphabet.IsWord name
  | mark text => text ∈ marks
  | numeral text => isNumeral text.toList = true

/-- In front of the text behind it, the lexeme is the longest one, and if it is a numeral then no word goes on
there. -/
def IsLongest (lexeme : Lexeme) (behind : List Char) : Prop :=
  (∀ longer : Lexeme, longer.IsValid alphabet → longer.text <+: lexeme.text ++ behind →
      longer.text.length ≤ lexeme.text.length) ∧
    ∀ text, lexeme = numeral text → alphabet.Breaks behind

/-- A lexeme of that sort may begin with the character. -/
def MayBegin (c : Char) : Lexeme → Prop
  | word _ => alphabet.isStart c = true
  | mark _ => alphabet.isPart c = false
  | numeral _ => c.isDigit = true ∨ c = '.'

end Lexeme

/-- The text is a sequence of the lexemes. -/
inductive Splits (alphabet : Alphabet) : List Char → List Lexeme → Prop
  | done : Splits alphabet [] []
  | blank {c : Char} {text : List Char} {lexemes : List Lexeme} (isBlank : isBlank c = true)
      (more : Splits alphabet text lexemes) : Splits alphabet (c :: text) lexemes
  | lexeme {lexeme : Lexeme} {text : List Char} {lexemes : List Lexeme} (isValid : lexeme.IsValid alphabet)
      (isLongest : lexeme.IsLongest alphabet text) (more : Splits alphabet text lexemes) :
      Splits alphabet (lexeme.text ++ text) (lexeme :: lexemes)

variable {alphabet : Alphabet}

/-! ## There is one way to split a text -/

theorem ascii_of_digit {c : Char} (digit : c.isDigit = true) :
    c.toNat < 128 ∧ isAsciiPart c = true ∧ isAsciiStart c = false := by
  have bounds : 48 ≤ c.toNat ∧ c.toNat ≤ 57 := by
    simpa [Char.isDigit, UInt32.le_iff_toNat_le] using digit
  refine ⟨by omega, by simp [isAsciiPart, Char.isAlphanum, digit], ?_⟩
  obtain ⟨d, small, rfl⟩ := exists_digitChar digit
  have start : ∀ d < 10, isAsciiStart (Nat.digitChar d) = false := by decide
  exact start d small

theorem Alphabet.isPart_of_digit {c : Char} (digit : c.isDigit = true) : alphabet.isPart c = true := by
  obtain ⟨ascii, part, -⟩ := ascii_of_digit digit
  exact (alphabet.isPart_ascii c ascii).trans part

theorem Alphabet.isStart_of_digit {c : Char} (digit : c.isDigit = true) : alphabet.isStart c = false := by
  obtain ⟨ascii, -, notStart⟩ := ascii_of_digit digit
  exact (alphabet.isStart_ascii c ascii).trans notStart

theorem Alphabet.isPart_point : alphabet.isPart '.' = false := alphabet.isPart_ascii '.' (by decide)

namespace Lexeme

variable {lexeme other : Lexeme} {c : Char}

theorem IsValid.exists_cons (isValid : lexeme.IsValid alphabet) :
    ∃ c cs, lexeme.text = c :: cs ∧ isBlank c = false ∧ lexeme.MayBegin alphabet c := by
  cases lexeme with
  | word name =>
    obtain ⟨c, cs, isName, start, -⟩ := id isValid
    obtain ⟨d, ds, isName', notBlank, -⟩ := Alphabet.IsWord.exists_cons isValid
    cases isName.symm.trans isName'
    exact ⟨c, cs, isName, notBlank, start⟩
  | mark text => exact exists_head_of_mark alphabet isValid
  | numeral text =>
    obtain ⟨c, cs, isText, isHead⟩ := exists_head_of_numeral isValid
    refine ⟨c, cs, isText, Bool.eq_false_iff.2 fun blank => ?_, isHead.imp_right And.left⟩
    rcases isHead with digit | ⟨rfl, -⟩
    · have part := alphabet.isPart_blank c blank
      rw [alphabet.isPart_of_digit digit] at part
      cases part
    · cases blank

/-- A text is one lexeme at most. -/
theorem eq_of_text (isValid : lexeme.IsValid alphabet) (isValid' : other.IsValid alphabet)
    (same : lexeme.text = other.text) : lexeme = other := by
  obtain ⟨c, cs, isText, -, begins⟩ := isValid.exists_cons
  obtain ⟨c', cs', isText', -, begins'⟩ := isValid'.exists_cons
  cases isText.symm.trans (same.trans isText')
  cases lexeme with
  | word name =>
    have part := alphabet.isPart_of_isStart c begins
    cases other with
    | word name' => exact congrArg word (String.toList_inj.1 same)
    | mark mark => cases part.symm.trans begins'
    | numeral digits =>
      rcases begins' with digit | rfl
      · cases (Alphabet.isStart_of_digit digit).symm.trans begins
      · cases part.symm.trans Alphabet.isPart_point
  | mark mark =>
    cases other with
    | word name' => cases (alphabet.isPart_of_isStart c begins').symm.trans begins
    | mark mark' => exact congrArg Lexeme.mark (String.toList_inj.1 same)
    | numeral digits =>
      cases (not_isNumeral_of_mark isValid ⟨[], by rw [List.append_nil]; exact same.symm⟩).symm.trans isValid'
  | numeral digits =>
    cases other with
    | word name' =>
      rcases begins with digit | rfl
      · cases (Alphabet.isStart_of_digit digit).symm.trans begins'
      · cases (alphabet.isPart_of_isStart _ begins').symm.trans Alphabet.isPart_point
    | mark mark =>
      cases (not_isNumeral_of_mark isValid' ⟨[], by rw [List.append_nil]; exact same⟩).symm.trans isValid
    | numeral digits' => exact congrArg numeral (String.toList_inj.1 same)

end Lexeme

namespace Splits

variable {text : List Char} {lexeme : Lexeme} {lexemes more : List Lexeme} {c : Char}

theorem eq_nil (splits : Splits alphabet [] lexemes) : lexemes = [] := by
  generalize whole : ([] : List Char) = all at splits
  cases splits with
  | done => rfl
  | blank => cases whole
  | lexeme isValid =>
    obtain ⟨_, _, isText, -⟩ := isValid.exists_cons
    rw [isText] at whole
    cases whole

theorem of_blank (blank : isBlank c = true) (splits : Splits alphabet (c :: text) lexemes) :
    Splits alphabet text lexemes := by
  generalize whole : c :: text = all at splits
  cases splits with
  | done => cases whole
  | blank _ more =>
    obtain ⟨rfl, rfl⟩ := List.cons.inj whole
    exact more
  | lexeme isValid =>
    obtain ⟨_, _, isText, notBlank, -⟩ := isValid.exists_cons
    rw [isText] at whole
    rw [← (List.cons.inj whole).1, blank] at notBlank
    cases notBlank

theorem of_lexeme (isValid : lexeme.IsValid alphabet) (isLongest : lexeme.IsLongest alphabet text)
    (splits : Splits alphabet (lexeme.text ++ text) lexemes) :
    ∃ more, lexemes = lexeme :: more ∧ Splits alphabet text more := by
  obtain ⟨c, cs, isText, notBlank, -⟩ := isValid.exists_cons
  generalize whole : lexeme.text ++ text = all at splits
  cases splits with
  | done =>
    rw [isText] at whole
    cases whole
  | blank blank =>
    rw [isText] at whole
    rw [← (List.cons.inj whole).1, notBlank] at blank
    cases blank
  | @lexeme other text' more isValid' isLongest' splits =>
    have atMost := isLongest.1 other isValid' (whole ▸ List.prefix_append _ _)
    have atLeast := isLongest'.1 lexeme isValid (whole ▸ List.prefix_append _ _)
    obtain ⟨sameText, rfl⟩ := List.append_inj whole (Nat.le_antisymm atLeast atMost)
    obtain rfl := Lexeme.eq_of_text isValid isValid' sameText
    exact ⟨more, rfl, splits⟩

/-- A text splits in one way only. -/
theorem unique {lexemes' : List Lexeme} (splits : Splits alphabet text lexemes)
    (splits' : Splits alphabet text lexemes') : lexemes = lexemes' := by
  induction splits generalizing lexemes' with
  | done => exact splits'.eq_nil.symm
  | blank blank _ ih => exact ih (splits'.of_blank blank)
  | lexeme isValid isLongest _ ih =>
    obtain ⟨more, rfl, later⟩ := splits'.of_lexeme isValid isLongest
    rw [ih later]

theorem isValid_of_mem (splits : Splits alphabet text lexemes) :
    ∀ lexeme ∈ lexemes, lexeme.IsValid alphabet := by
  induction splits with
  | done => exact List.forall_mem_nil _
  | blank _ _ ih => exact ih
  | lexeme isValid _ _ ih => exact List.forall_mem_cons.2 ⟨isValid, ih⟩

/-- A text has a lexeme at its front exactly if that is the longest one there. -/
theorem lexeme_iff (isValid : lexeme.IsValid alphabet) :
    Splits alphabet (lexeme.text ++ text) (lexeme :: more) ↔
      lexeme.IsLongest alphabet text ∧ Splits alphabet text more := by
  constructor
  · intro splits
    obtain ⟨c, cs, isText, notBlank, -⟩ := isValid.exists_cons
    generalize whole : lexeme.text ++ text = all at splits
    cases splits with
    | blank blank =>
      rw [isText] at whole
      rw [← (List.cons.inj whole).1, notBlank] at blank
      cases blank
    | lexeme _ isLongest splits =>
      obtain rfl := List.append_cancel_left whole
      exact ⟨isLongest, splits⟩
  · rintro ⟨isLongest, splits⟩
    exact .lexeme isValid isLongest splits

theorem space_iff : Splits alphabet (' ' :: text) lexemes ↔ Splits alphabet text lexemes :=
  ⟨of_blank (by decide), .blank (by decide)⟩

end Splits

/-! ## Where a lexeme ends -/

/-- A text at the front of others either ends within the first or goes on with the next one. -/
theorem length_le_or_of_prefix {longer front behind : List Char} (standsThere : longer <+: front ++ behind) :
    longer.length ≤ front.length ∨ ∃ c cs, longer = front ++ c :: cs ∧ behind.head? = some c := by
  rcases List.prefix_or_prefix_of_prefix standsThere (List.prefix_append front behind) with
    shorter | ⟨more, rfl⟩
  · exact .inl shorter.length_le
  · cases more with
    | nil => exact .inl (by simp)
    | cons c cs =>
      obtain ⟨rest, rfl⟩ := (List.prefix_append_right_inj _).1 standsThere
      exact .inr ⟨c, cs, rfl, rfl⟩

/-- Behind a numeral, what is no character of words is read only if it is a first point. -/
theorem NumeralPhase.next?_eq_none {phase : NumeralPhase} {c : Char} (canEnd : phase.canEnd = true)
    (notPart : alphabet.isPart c = false) (point : c = '.' → phase = fraction) : phase.next? c = none := by
  have notDigit : ¬ c.isDigit = true := fun digit => by
    cases (Alphabet.isPart_of_digit digit).symm.trans notPart
  have notMark : ¬ (c = 'e' ∨ c = 'E') := by
    rintro (rfl | rfl)
    · cases (alphabet.isPart_ascii 'e' (by decide)).symm.trans notPart
    · cases (alphabet.isPart_ascii 'E' (by decide)).symm.trans notPart
  by_cases isPoint : c = '.'
  · rw [point isPoint, next?, if_neg notDigit, if_neg notMark]
  · have notBehind : behindWhole? c = none := by rw [behindWhole?, if_neg isPoint, if_neg notMark]
    cases phase with
    | zero => exact notBehind
    | whole => exact (if_neg notDigit).trans notBehind
    | fraction => rw [next?, if_neg notDigit, if_neg notMark]
    | exponent => exact if_neg notDigit
    | _ => cases canEnd

namespace Lexeme

variable {behind : List Char}

theorem longest_word {name : String} (isWord : alphabet.IsWord name) (breaks : alphabet.Breaks behind) :
    (word name).IsLongest alphabet behind := by
  obtain ⟨c, cs, isName, -, begins⟩ := IsValid.exists_cons (show (word name).IsValid alphabet from isWord)
  refine ⟨fun longer isValid standsThere => ?_, nofun⟩
  rcases length_le_or_of_prefix standsThere with shorter | ⟨d, ds, isLonger, isNext⟩
  · exact shorter
  · -- What is longer begins like the word, so it is a word with the character behind it.
    obtain ⟨c', cs', isText', -, begins'⟩ := isValid.exists_cons
    rw [isLonger, isName] at isText'
    cases isText'
    have part := alphabet.isPart_of_isStart c begins
    cases longer with
    | word name' =>
      obtain ⟨_, _, isName', -, parts⟩ := Alphabet.IsWord.exists_cons isValid
      have inName : d ∈ name'.toList := by
        rw [show name'.toList = (word name).text ++ d :: ds from isLonger]
        exact List.mem_append_right _ (.head _)
      rw [isName'] at inName
      cases (parts d inName).symm.trans (breaks d isNext)
    | mark mark => cases part.symm.trans begins'
    | numeral digits =>
      rcases begins' with digit | rfl
      · cases (Alphabet.isStart_of_digit digit).symm.trans begins
      · cases part.symm.trans Alphabet.isPart_point

theorem longest_mark {mark : String} (isMark : mark ∈ marks)
    (next : ∀ c ∈ behind.head?, c ∉ continuations mark)
    (notNumeral : mark = "." → ∀ c ∈ behind.head?, c.isDigit = false) :
    (Lexeme.mark mark).IsLongest alphabet behind := by
  obtain ⟨c, cs, isText, -, notPart⟩ := exists_head_of_mark alphabet isMark
  refine ⟨fun longer isValid standsThere => ?_, nofun⟩
  rcases length_le_or_of_prefix standsThere with shorter | ⟨d, ds, isLonger, isNext⟩
  · exact shorter
  · obtain ⟨c', cs', isText', -, begins'⟩ := isValid.exists_cons
    rw [isLonger, show (Lexeme.mark mark).text = c :: cs from isText] at isText'
    cases isText'
    cases longer with
    | word name' => cases (alphabet.isPart_of_isStart c begins').symm.trans notPart
    | mark mark' =>
      simpa only [Lexeme.text, String.length_toList] using longest_of_next next mark' isValid standsThere
    | numeral digits =>
      obtain ⟨phase, reached, -⟩ := isNumeral_iff.1 isValid
      rw [show digits.toList = mark.toList ++ d :: ds from isLonger, NumeralPhase.read?_append] at reached
      obtain ⟨behindMark, reached, later⟩ := Option.bind_eq_some_iff.1 reached
      have point : ∀ mark ∈ marks, (NumeralPhase.start.read? mark.toList).isSome → mark = "." := by decide
      obtain rfl := point mark isMark (by rw [reached]; rfl)
      cases reached
      have stops : NumeralPhase.point.next? d = none :=
        if_neg (Bool.eq_false_iff.1 (notNumeral rfl d isNext))
      rw [NumeralPhase.read?_cons, stops] at later
      cases later

/-- A numeral ends in front of a character that is not read behind it. -/
theorem longest_numeral {digits : String} {phase : NumeralPhase} (isValid : isNumeral digits.toList = true)
    (reached : NumeralPhase.start.read? digits.toList = some phase)
    (next : ∀ c ∈ behind.head?, phase.next? c = none) (breaks : alphabet.Breaks behind) :
    (numeral digits).IsLongest alphabet behind := by
  refine ⟨fun longer isLongerValid standsThere => ?_, fun _ _ => breaks⟩
  rcases length_le_or_of_prefix standsThere with shorter | ⟨d, ds, isLonger, isNext⟩
  · exact shorter
  · obtain ⟨c, cs, isText, -, begins⟩ :=
      IsValid.exists_cons (show (numeral digits).IsValid alphabet from isValid)
    obtain ⟨c', cs', isText', -, begins'⟩ := isLongerValid.exists_cons
    rw [isLonger, isText] at isText'
    cases isText'
    cases longer with
    | word name' =>
      rcases begins with digit | rfl
      · cases (Alphabet.isStart_of_digit digit).symm.trans begins'
      · cases (alphabet.isPart_of_isStart _ begins').symm.trans Alphabet.isPart_point
    | mark mark => cases (not_isNumeral_of_mark isLongerValid ⟨d :: ds, isLonger.symm⟩).symm.trans isValid
    | numeral digits' =>
      have isNumeral' : isNumeral (digits.toList ++ d :: ds) = false :=
        not_isNumeral_append reached (next d isNext)
      rw [← show digits'.toList = digits.toList ++ d :: ds from isLonger] at isNumeral'
      cases isNumeral'.symm.trans isLongerValid

end Lexeme

end Resumable.Script
