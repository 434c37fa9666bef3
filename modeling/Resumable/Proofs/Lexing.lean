import Mathlib.Data.List.Infix
import Resumable.Syntax.Operator

/-!
# Tokens of program texts

A line of program text is a sequence of tokens with any white space between them: words, which are as
long as characters of words follow one another, and marks, each the longest one that stands there
(`Script.Scans`).  So a text has at most one sequence of tokens (`Scans.unique`).  Numbers, strings,
templates and regular expressions are not among the tokens here, and a text with a comment has none.

Which characters words are made of is up to an `Alphabet`, as only those of ASCII are fixed here.
-/

namespace Resumable.Script

/-! ## Characters -/

/-- White space inside a line. -/
def isBlank (c : Char) : Bool :=
  [0x9, 0xb, 0xc, 0x20, 0xa0, 0x1680, 0x2000, 0x2001, 0x2002, 0x2003, 0x2004, 0x2005, 0x2006, 0x2007,
    0x2008, 0x2009, 0x200a, 0x202f, 0x205f, 0x3000, 0xfeff].contains c.toNat

/-- The characters of ASCII with which a word may begin. -/
def isAsciiStart (c : Char) : Bool := c.isAlpha || c = '$' || c = '_'

/-- The characters of ASCII that may stand in a word. -/
def isAsciiPart (c : Char) : Bool := c.isAlphanum || c = '$' || c = '_'

/-- The characters of words. -/
structure Alphabet where
  /-- A word may begin with the character. -/
  isStart : Char → Bool
  /-- The character may stand in a word. -/
  isPart : Char → Bool
  isPart_of_isStart : ∀ c, isStart c = true → isPart c = true
  isPart_blank : ∀ c, isBlank c = true → isPart c = false
  isStart_ascii : ∀ c, c.toNat < 128 → isStart c = isAsciiStart c
  isPart_ascii : ∀ c, c.toNat < 128 → isPart c = isAsciiPart c

theorem bounds_of_isAsciiPart {c : Char} (part : isAsciiPart c = true) :
    36 ≤ c.toNat ∧ c.toNat ≤ 122 := by
  simp only [isAsciiPart, Bool.or_eq_true, decide_eq_true_eq] at part
  rcases part with (alphanumeric | rfl) | rfl
  · obtain letter | digit := Bool.or_eq_true_iff.1 (show (c.isAlpha || c.isDigit) = true from alphanumeric)
    · obtain upper | lower := Bool.or_eq_true_iff.1 (show (c.isUpper || c.isLower) = true from letter)
      · have bounds : 65 ≤ c.toNat ∧ c.toNat ≤ 90 := of_decide_eq_true upper
        omega
      · have bounds : 97 ≤ c.toNat ∧ c.toNat ≤ 122 :=
          (Bool.and_eq_true_iff.1 lower).imp of_decide_eq_true of_decide_eq_true
        omega
    · have bounds : 48 ≤ c.toNat ∧ c.toNat ≤ 57 :=
        (Bool.and_eq_true_iff.1 digit).imp of_decide_eq_true of_decide_eq_true
      omega
  · decide
  · decide

/-- The alphabet without any character outside ASCII. -/
def Alphabet.ascii : Alphabet where
  isStart := isAsciiStart
  isPart := isAsciiPart
  isPart_of_isStart c := by
    simp only [isAsciiStart, isAsciiPart, Char.isAlphanum, Bool.or_eq_true]
    tauto
  isPart_blank c blank := by
    refine Bool.eq_false_iff.2 fun part => ?_
    have bounds := bounds_of_isAsciiPart part
    simp only [isBlank, List.contains_eq_mem, decide_eq_true_eq, List.mem_cons, List.not_mem_nil,
      or_false] at blank
    omega
  isStart_ascii _ _ := rfl
  isPart_ascii _ _ := rfl

namespace Alphabet

variable (alphabet : Alphabet)

/-- The name is a word. -/
def IsWord (name : String) : Prop :=
  ∃ c cs, name.toList = c :: cs ∧ alphabet.isStart c = true ∧ ∀ d ∈ cs, alphabet.isPart d = true

/-- A word that stands in front of the text ends there. -/
def Breaks (text : List Char) : Prop := ∀ c ∈ text.head?, alphabet.isPart c = false

end Alphabet

/-! ## Tokens -/

/-- The smallest parts of a program text. -/
inductive Token where
  /-- A name or a word of the language. -/
  | word (name : String)
  /-- A punctuator. -/
  | mark (text : String)
  deriving Repr, DecidableEq

/-- The punctuators, and the marks that begin a comment. -/
def marks : List String :=
  ["\x7b", "\x7d", "(", ")", "[", "]", ".", "...", ";", ",", "<", ">", "<=", ">=", "==", "!=", "===",
    "!==", "+", "-", "*", "/", "%", "**", "++", "--", "<<", ">>", ">>>", "&", "|", "^", "!", "~", "&&",
    "||", "??", "?", "?.", ":", "=", "+=", "-=", "*=", "/=", "%=", "**=", "<<=", ">>=", ">>>=", "&=",
    "|=", "^=", "&&=", "||=", "??=", "=>", "//", "/*", "<!--"]

/-- The text is a sequence of the tokens. -/
inductive Scans (alphabet : Alphabet) : List Char → List Token → Prop
  | done : Scans alphabet [] []
  | blank {c : Char} {text : List Char} {tokens : List Token} (isBlank : isBlank c = true)
      (more : Scans alphabet text tokens) : Scans alphabet (c :: text) tokens
  | word {name : String} {text : List Char} {tokens : List Token} (isWord : alphabet.IsWord name)
      (breaks : alphabet.Breaks text) (more : Scans alphabet text tokens) :
      Scans alphabet (name.toList ++ text) (.word name :: tokens)
  | mark {mark : String} {text : List Char} {tokens : List Token} (isMark : mark ∈ marks)
      (longest : ∀ longer ∈ marks, longer.toList <+: mark.toList ++ text → longer.length ≤ mark.length)
      (more : Scans alphabet text tokens) :
      Scans alphabet (mark.toList ++ text) (.mark mark :: tokens)

variable {alphabet : Alphabet}

/-! ## There are no other tokens -/

/-- A mark begins with a character that is neither blank nor one of words. -/
theorem exists_head_of_mark (alphabet : Alphabet) {mark : String} (isMark : mark ∈ marks) :
    ∃ c cs, mark.toList = c :: cs ∧ isBlank c = false ∧ alphabet.isPart c = false := by
  have heads : ∀ mark ∈ marks, mark.toList.head?.any
      (fun c => c.toNat < 128 && !isBlank c && !isAsciiPart c) = true := by
    decide
  obtain ⟨c, isHead, facts⟩ := (Option.any_eq_true _ _).1 (heads mark isMark)
  simp only [Bool.and_eq_true, Bool.not_eq_true', decide_eq_true_eq] at facts
  obtain ⟨⟨ascii, notBlank⟩, notPart⟩ := facts
  obtain ⟨cs, text⟩ := List.head?_eq_some_iff.1 isHead
  exact ⟨c, cs, text, notBlank, (alphabet.isPart_ascii c ascii).trans notPart⟩

theorem Alphabet.IsWord.exists_cons {name : String} (isWord : alphabet.IsWord name) :
    ∃ c cs, name.toList = c :: cs ∧ isBlank c = false ∧ ∀ d ∈ c :: cs, alphabet.isPart d = true := by
  obtain ⟨c, cs, isName, start, parts⟩ := isWord
  have part := alphabet.isPart_of_isStart c start
  refine ⟨c, cs, isName, Bool.eq_false_iff.2 fun blank => ?_, List.forall_mem_cons.2 ⟨part, parts⟩⟩
  rw [alphabet.isPart_blank c blank] at part
  cases part

/-- Two words at the same place are the same. -/
theorem eq_of_words {name name' text text' : List Char} (parts : ∀ c ∈ name, alphabet.isPart c = true)
    (parts' : ∀ c ∈ name', alphabet.isPart c = true) (breaks : alphabet.Breaks text)
    (breaks' : alphabet.Breaks text') (same : name ++ text = name' ++ text') :
    name = name' ∧ text = text' := by
  induction name generalizing name' with
  | nil =>
    cases name' with
    | nil => exact ⟨rfl, same⟩
    | cons c name' =>
      rw [List.nil_append] at same
      have notPart := breaks c (by simp [same])
      rw [parts' c (.head _)] at notPart
      cases notPart
  | cons c name ih =>
    cases name' with
    | nil =>
      rw [List.nil_append] at same
      have notPart := breaks' c (by simp [← same])
      rw [parts c (.head _)] at notPart
      cases notPart
    | cons c' name' =>
      obtain ⟨sameHead, sameTail⟩ := List.cons.inj same
      obtain ⟨sameName, sameText⟩ :=
        ih (fun d mem => parts d (.tail _ mem)) (fun d mem => parts' d (.tail _ mem)) sameTail
      exact ⟨by rw [sameHead, sameName], sameText⟩

namespace Scans

variable {text : List Char} {tokens : List Token} {c : Char} {name mark : String}

theorem eq_nil (scanned : Scans alphabet [] tokens) : tokens = [] := by
  generalize whole : ([] : List Char) = all at scanned
  cases scanned with
  | done => rfl
  | blank => cases whole
  | word isWord =>
    obtain ⟨_, _, isName, -⟩ := isWord
    rw [isName] at whole
    cases whole
  | mark isMark =>
    obtain ⟨_, _, isText, -⟩ := exists_head_of_mark alphabet isMark
    rw [isText] at whole
    cases whole

theorem of_blank (blank : isBlank c = true) (scanned : Scans alphabet (c :: text) tokens) :
    Scans alphabet text tokens := by
  generalize whole : c :: text = all at scanned
  cases scanned with
  | done => cases whole
  | blank _ more =>
    obtain ⟨rfl, rfl⟩ := List.cons.inj whole
    exact more
  | word isWord =>
    obtain ⟨_, _, isName, notBlank, -⟩ := isWord.exists_cons
    rw [isName] at whole
    rw [← (List.cons.inj whole).1, blank] at notBlank
    cases notBlank
  | mark isMark =>
    obtain ⟨_, _, isText, notBlank, -⟩ := exists_head_of_mark alphabet isMark
    rw [isText] at whole
    rw [← (List.cons.inj whole).1, blank] at notBlank
    cases notBlank

theorem of_word (isWord : alphabet.IsWord name) (breaks : alphabet.Breaks text)
    (scanned : Scans alphabet (name.toList ++ text) tokens) :
    ∃ more, tokens = .word name :: more ∧ Scans alphabet text more := by
  obtain ⟨c, cs, isName, notBlank, parts⟩ := isWord.exists_cons
  generalize whole : name.toList ++ text = all at scanned
  rw [isName] at whole
  cases scanned with
  | done => cases whole
  | blank blank =>
    rw [← (List.cons.inj whole).1, notBlank] at blank
    cases blank
  | @word name' text' more isWord' breaks' scanned =>
    obtain ⟨c', cs', isName', -, parts'⟩ := isWord'.exists_cons
    rw [isName'] at whole
    obtain ⟨sameName, rfl⟩ := eq_of_words parts parts' breaks breaks' whole
    obtain rfl : name = name' := String.toList_inj.1 (by rw [isName, isName', sameName])
    exact ⟨more, rfl, scanned⟩
  | mark isMark =>
    obtain ⟨_, _, isText, -, notPart⟩ := exists_head_of_mark alphabet isMark
    rw [isText] at whole
    rw [← (List.cons.inj whole).1, parts c (.head _)] at notPart
    cases notPart

theorem of_mark (isMark : mark ∈ marks)
    (longest : ∀ longer ∈ marks, longer.toList <+: mark.toList ++ text → longer.length ≤ mark.length)
    (scanned : Scans alphabet (mark.toList ++ text) tokens) :
    ∃ more, tokens = .mark mark :: more ∧ Scans alphabet text more := by
  obtain ⟨c, cs, isText, notBlank, notPart⟩ := exists_head_of_mark alphabet isMark
  generalize whole : mark.toList ++ text = all at scanned
  cases scanned with
  | done =>
    rw [isText] at whole
    cases whole
  | blank blank =>
    rw [isText] at whole
    rw [← (List.cons.inj whole).1, notBlank] at blank
    cases blank
  | word isWord =>
    obtain ⟨_, _, isName, -, parts⟩ := isWord.exists_cons
    rw [isText, isName] at whole
    have part := parts _ (.head _)
    rw [← (List.cons.inj whole).1, notPart] at part
    cases part
  | @mark mark' text' more isMark' longest' scanned =>
    have atMost := longest mark' isMark' (whole ▸ List.prefix_append _ _)
    have atLeast := longest' mark isMark (whole ▸ List.prefix_append _ _)
    have length : mark.toList.length = mark'.toList.length := by
      rw [String.length_toList, String.length_toList]
      omega
    obtain ⟨sameMark, rfl⟩ := List.append_inj whole length
    obtain rfl : mark = mark' := String.toList_inj.1 sameMark
    exact ⟨more, rfl, scanned⟩

/-- A text has only one sequence of tokens. -/
theorem unique {tokens' : List Token} (scanned : Scans alphabet text tokens)
    (scanned' : Scans alphabet text tokens') : tokens = tokens' := by
  induction scanned generalizing tokens' with
  | done => exact scanned'.eq_nil.symm
  | blank blank _ ih => exact ih (scanned'.of_blank blank)
  | word isWord breaks _ ih =>
    obtain ⟨more, rfl, later⟩ := scanned'.of_word isWord breaks
    rw [ih later]
  | mark isMark longest _ ih =>
    obtain ⟨more, rfl, later⟩ := scanned'.of_mark isMark longest
    rw [ih later]

end Scans

/-! ## Where a mark ends -/

/-- The characters with which longer marks go on behind a mark. -/
def continuations (mark : String) : List Char :=
  marks.filterMap fun longer =>
    if mark.toList.isPrefixOf longer.toList then longer.toList[mark.length]? else none

/-- No longer mark stands where a mark is in front of a character with which none goes on. -/
theorem longest_of_next {mark : String} {text : List Char} (next : ∀ c ∈ text.head?, c ∉ continuations mark) :
    ∀ longer ∈ marks, longer.toList <+: mark.toList ++ text → longer.length ≤ mark.length := by
  intro longer isLonger standsThere
  refine Nat.le_of_not_lt fun shorter => ?_
  have begins : mark.toList <+: longer.toList := by
    refine List.prefix_of_prefix_length_le (List.prefix_append _ _) standsThere ?_
    rw [String.length_toList, String.length_toList]
    omega
  obtain ⟨behind, isBehind⟩ := begins
  cases behind with
  | nil =>
    rw [List.append_nil] at isBehind
    rw [String.toList_inj.1 isBehind] at shorter
    exact Nat.lt_irrefl _ shorter
  | cons c behind =>
    rw [← isBehind, List.prefix_append_right_inj] at standsThere
    obtain ⟨text, rfl⟩ := standsThere
    refine next c rfl (List.mem_filterMap.2 ⟨longer, isLonger, ?_⟩)
    rw [if_pos (List.isPrefixOf_iff_prefix.2 ⟨c :: behind, isBehind⟩), ← isBehind,
      List.getElem?_append_right (by rw [String.length_toList]), String.length_toList, Nat.sub_self]
    rfl

/-- A mark is the longest one in front of a character with which none goes on. -/
theorem Scans.mark_of_next {mark : String} {text : List Char} {tokens : List Token}
    (isMark : mark ∈ marks) (next : ∀ c ∈ text.head?, c ∉ continuations mark)
    (more : Scans alphabet text tokens) : Scans alphabet (mark.toList ++ text) (.mark mark :: tokens) :=
  .mark isMark (longest_of_next next) more

/-! ## Texts of tokens -/

namespace Token

/-- The text of a token. -/
def text : Token → String
  | word name => name
  | mark text => text

/-- The token is one of the language. -/
def IsValid (alphabet : Alphabet) : Token → Prop
  | word name => alphabet.IsWord name
  | mark text => text ∈ marks

end Token

/-- A character of ASCII with which words begin in every alphabet. -/
def isLetter (c : Char) : Bool := c.toNat < 128 && isAsciiStart c

/-- Letters are words in every alphabet. -/
theorem Alphabet.isWord_of_letters {name : String} (notEmpty : name.toList ≠ [])
    (letters : name.toList.all isLetter = true) : alphabet.IsWord name := by
  obtain ⟨c, cs, isName⟩ := List.exists_cons_of_ne_nil notEmpty
  have start (d : Char) (mem : d ∈ c :: cs) : alphabet.isStart d = true := by
    have isLetter := List.all_eq_true.1 letters d (isName ▸ mem)
    obtain ⟨ascii, isStart⟩ := Bool.and_eq_true_iff.1 isLetter
    exact (alphabet.isStart_ascii d (of_decide_eq_true ascii)).trans isStart
  refine ⟨c, cs, isName, start c (.head _), fun d mem => ?_⟩
  exact alphabet.isPart_of_isStart d (start d (.tail _ mem))

/-- The text is one of the tokens, wherever the words in it end with it. -/
def Lexes (alphabet : Alphabet) (tokens : List Token) (text : List Char) : Prop :=
  ∀ following more, alphabet.Breaks following → Scans alphabet following more →
    Scans alphabet (text ++ following) (tokens ++ more)

theorem Alphabet.isPart_of_ascii {c : Char} (ascii : c.toNat < 128 ∧ isAsciiPart c = false) :
    alphabet.isPart c = false :=
  (alphabet.isPart_ascii c ascii.1).trans ascii.2

theorem Alphabet.IsWord.exists_head_ne {name : String} (isWord : alphabet.IsWord name) {c : Char}
    (ascii : c.toNat < 128 ∧ isAsciiPart c = false) : ∃ d cs, name.toList = d :: cs ∧ d ≠ c := by
  obtain ⟨d, cs, isName, -, parts⟩ := isWord.exists_cons
  refine ⟨d, cs, isName, ?_⟩
  rintro rfl
  exact Bool.noConfusion ((parts d (.head _)).symm.trans (alphabet.isPart_of_ascii ascii))

theorem Alphabet.breaks_nil : alphabet.Breaks [] := fun _ isHead => nomatch isHead

theorem Alphabet.breaks_cons {c : Char} {text : List Char}
    (ascii : c.toNat < 128 ∧ isAsciiPart c = false) : alphabet.Breaks (c :: text) := by
  intro first isFirst
  cases isFirst
  exact alphabet.isPart_of_ascii ascii

theorem Alphabet.breaks_mark {mark : String} (isMark : mark ∈ marks) (text : List Char) :
    alphabet.Breaks (mark.toList ++ text) := by
  intro first isFirst
  obtain ⟨c, cs, isText, -, notPart⟩ := exists_head_of_mark alphabet isMark
  rw [isText] at isFirst
  cases isFirst
  exact notPart

namespace Lexes

variable {tokens others : List Token} {text behind : List Char}

theorem nil : Lexes alphabet [] [] := fun _ _ _ scanned => scanned

theorem append (first : Lexes alphabet tokens text) (breaks : alphabet.Breaks behind)
    (second : Lexes alphabet others behind) : Lexes alphabet (tokens ++ others) (text ++ behind) := by
  intro following more breaks' scanned
  rw [List.append_assoc, List.append_assoc]
  refine first _ _ ?_ (second _ _ breaks' scanned)
  cases behind with
  | nil => exact breaks'
  | cons c behind => exact breaks

theorem space (lexes : Lexes alphabet tokens text) : Lexes alphabet tokens (' ' :: text) :=
  fun _ _ breaks scanned => .blank (by decide) (lexes _ _ breaks scanned)

theorem word {name : String} (isWord : alphabet.IsWord name) (breaks : alphabet.Breaks text)
    (lexes : Lexes alphabet tokens text) : Lexes alphabet (.word name :: tokens) (name.toList ++ text) := by
  intro following more breaks' scanned
  rw [List.append_assoc]
  refine .word isWord ?_ (lexes _ _ breaks' scanned)
  cases text with
  | nil => exact breaks'
  | cons c text => exact breaks

theorem mark (mark : String) {c : Char} (isMark : mark ∈ marks) (next : c ∉ continuations mark)
    (lexes : Lexes alphabet tokens (c :: text)) :
    Lexes alphabet (.mark mark :: tokens) (mark.toList ++ c :: text) := by
  intro following more breaks scanned
  rw [List.append_assoc]
  refine .mark_of_next isMark (fun first isFirst => ?_) (lexes _ _ breaks scanned)
  cases isFirst
  exact next

/-- A mark that does not go on with anything. -/
theorem mark_of_nil (mark : String) (isMark : mark ∈ marks) (none : continuations mark = [])
    (lexes : Lexes alphabet tokens text) : Lexes alphabet (.mark mark :: tokens) (mark.toList ++ text) := by
  intro following more breaks scanned
  rw [List.append_assoc]
  refine .mark_of_next isMark (fun first _ => ?_) (lexes _ _ breaks scanned)
  rw [none]
  exact List.not_mem_nil

/-- A token in front of a space. -/
theorem token (token : Token) (isValid : token.IsValid alphabet) (lexes : Lexes alphabet tokens text) :
    Lexes alphabet (token :: tokens) (token.text.toList ++ ' ' :: text) := by
  cases token with
  | word name => exact lexes.space.word isValid (Alphabet.breaks_cons (by decide))
  | mark mark =>
    have next : ∀ mark ∈ marks, ' ' ∉ continuations mark := by decide
    exact lexes.space.mark mark isValid (next mark isValid)

/-- A token between spaces. -/
theorem between (token : Token) (first : Lexes alphabet tokens text) (isValid : token.IsValid alphabet)
    (second : Lexes alphabet others behind) :
    Lexes alphabet (tokens ++ token :: others) (text ++ ' ' :: (token.text.toList ++ ' ' :: behind)) :=
  first.append (Alphabet.breaks_cons (by decide)) (second.token token isValid).space

/-- A comma between two texts. -/
theorem comma (first : Lexes alphabet tokens text) (second : Lexes alphabet others behind) :
    Lexes alphabet (tokens ++ .mark "," :: others) (text ++ ',' :: ' ' :: behind) :=
  first.append (Alphabet.breaks_cons (by decide)) (second.space.mark_of_nil "," (by decide) (by decide))

/-- A text between two marks that do not go on with anything. -/
theorem enclosed (opening closing : String) (isOpening : opening ∈ marks) (isClosing : closing ∈ marks)
    (lexes : Lexes alphabet tokens text) (none : continuations opening = [])
    (none' : continuations closing = []) :
    Lexes alphabet (.mark opening :: (tokens ++ [.mark closing]))
      (opening.toList ++ (text ++ closing.toList)) := by
  have last := mark_of_nil closing isClosing none' (nil : Lexes alphabet [] [])
  have breaks := alphabet.breaks_mark isClosing []
  rw [List.append_nil] at last breaks
  exact mark_of_nil opening isOpening none (lexes.append breaks last)

end Lexes

end Resumable.Script
