import Resumable.Proofs.Lexemes
import Resumable.Proofs.Parentheses
import Resumable.Proofs.Scope

/-!
# Sign operators in printed expressions

`Script.Calculation` are the expressions of names, finite numbers, accesses and operators.  A node of one is
written with lexemes of its own (`Node.lexemes`): one for an operator, a literal or a name, and the parentheses
that its place adds.  By the rule of the longest lexeme the text splits into these, with the minus sign of a negative
literal apart from its digits, exactly if no minus sign stands right in front of another one and no whole number
right in front of the point of an access (`Calculation.isSplitAlone`).  What stands behind a minus sign is seen
on the left spine of its operand (`Node.leadsWithMinus`).
-/

namespace Resumable

open Script

/-! ## What is written for an operator -/

namespace BinaryOperator

/-- The least precedence of what stands on the left of an operator without parentheses. -/
def leastLeft : BinaryOperator → Nat
  | .assign => Precedence.assignment + 1
  | operator => Precedence.ofOperator operator

/-- The least precedence of what stands on the right of an operator without parentheses. -/
def leastRight : BinaryOperator → Nat
  | .assign => Precedence.yield
  | operator => Precedence.ofOperator operator + 1

/-- What is written between two operands. -/
def between (operator : BinaryOperator) : String :=
  if operator = .comma then ", " else " " ++ operator.text ++ " "

theorem leastLeft_le_primary (operator : BinaryOperator) : operator.leastLeft ≤ Precedence.primary := by
  cases operator <;> decide

theorem leastRight_le_primary (operator : BinaryOperator) : operator.leastRight ≤ Precedence.primary := by
  cases operator <;> decide

end BinaryOperator

namespace Script

theorem textOf_operation (operator : BinaryOperator) (left right : Node) (level : Nat) :
    (Kind.binaryExpression operator (left, left.textAt) (right, right.textAt)).textOf level =
      shown operator.leastLeft level left ++ operator.between ++ shown operator.leastRight level right := by
  cases operator <;> rfl

/-! ## The lexemes of an expression -/

/-- The token as a lexeme. -/
def Token.lexeme : Token → Lexeme
  | word name => .word name
  | mark text => .mark text

namespace Lexeme

/-- The lexemes of a part in a place, which encloses a part that binds less tightly than it asks for. -/
def placed (least : Nat) (part : Node × List Lexeme) : List Lexeme :=
  if Precedence.ofKind part.1.kind < least then mark "(" :: (part.2 ++ [mark ")"]) else part.2

/-- The lexemes of a text that is written as one: a minus sign is one by itself. -/
def parts : Lexeme → List Lexeme
  | numeral text =>
    if text.toList.head? = some '-' then [mark "-", numeral (String.ofList text.toList.tail)]
    else [numeral text]
  | lexeme => [lexeme]

theorem parts_of_signed {text : String} {digits : List Char} (isText : text.toList = '-' :: digits) :
    (numeral text).parts = [mark "-", numeral (String.ofList digits)] := by
  rw [parts, isText]
  exact if_pos rfl

theorem parts_of_unsigned {text : String} (notMinus : text.toList.head? ≠ some '-') :
    (numeral text).parts = [numeral text] :=
  if_neg notMinus

end Lexeme

end Script

/-- The lexemes that are written for a kind. -/
def Kind.lexemesOf : Kind (Node × List Lexeme) → List Lexeme
  | .identifier name => [.word name]
  | .numericLiteral value => [.numeral (numberLiteral value)]
  | .propertyAccess object name => Lexeme.placed Precedence.member object ++ [.mark ".", .word name]
  | .binaryExpression operator left right =>
    Lexeme.placed operator.leastLeft left ++ operator.token.lexeme :: Lexeme.placed operator.leastRight right
  | .unaryExpression operator operand => operator.token.lexeme :: Lexeme.placed Precedence.unary operand
  | .updateExpression operator isPrefix operand =>
    if isPrefix then operator.token.lexeme :: Lexeme.placed Precedence.member operand
    else Lexeme.placed Precedence.member operand ++ [operator.token.lexeme]
  | _ => []

namespace Node

/-- The lexemes that are written for the nodes of an expression. -/
def lexemes : Node → List Lexeme := para fun _ parts => parts.lexemesOf

theorem lexemes_eq (node : Node) :
    node.lexemes = (node.kind.map fun child => (child, child.lexemes)).lexemesOf := by
  unfold lexemes
  rw [para_eq]

/-- The text of the expression begins with a minus sign. -/
def leadsWithMinus : Node → Bool :=
  para fun _ parts =>
    let leads (least : Nat) (part : Node × Bool) : Bool := least ≤ Precedence.ofKind part.1.kind && part.2
    match parts with
    | .numericLiteral value => (numberLiteral value).toList.head? = some '-'
    | .unaryExpression operator _ => operator = .negate
    | .updateExpression operator isPrefix operand =>
      if isPrefix then operator = .decrement else leads Precedence.member operand
    | .propertyAccess object _ => leads Precedence.member object
    | .binaryExpression operator left _ => leads operator.leastLeft left
    | _ => false

/-- The node is a literal without a point. -/
def isWholeLiteral (node : Node) : Bool :=
  match node.kind with
  | .numericLiteral value => !(numberLiteral value).toList.contains '.'
  | _ => false

/-- The node is a literal with a sign. -/
def isNegativeLiteral (node : Node) : Bool :=
  match node.kind with
  | .numericLiteral value => (numberLiteral value).toList.head? = some '-'
  | _ => false

/-- What the node writes by itself does not run together with the text of an operand. -/
def isApart (node : Node) : Bool :=
  match node.kind with
  | .unaryExpression .negate operand =>
    !(Precedence.unary ≤ Precedence.ofKind operand.kind && operand.leadsWithMinus)
  | .propertyAccess object _ => !object.isWholeLiteral
  | _ => true

end Node

namespace Script

/-! ## The texts of numbers -/

/-- The text is a numeral that begins with a digit and has no exponent. -/
structure IsDigits (digits : List Char) : Prop where
  begins : ∃ c cs, digits = c :: cs ∧ c.isDigit = true
  reached : ∃ phase, NumeralPhase.start.read? digits = some phase ∧
    ((phase = .zero ∨ phase = .whole) ∧ '.' ∉ digits ∨ phase = .fraction ∧ '.' ∈ digits)

theorem isDigits_of_isWhole {digits : List Char} (isWhole : IsWhole digits) : IsDigits digits := by
  obtain ⟨phase, isPhase, reached⟩ := NumeralPhase.read?_whole isWhole
  obtain ⟨c, cs, rfl, digit, all, -⟩ := isWhole
  have noPoint : '.' ∉ c :: cs := fun mem => by
    rcases List.mem_cons.1 mem with rfl | mem
    · cases digit
    · cases all _ mem
  exact ⟨⟨c, cs, rfl, digit⟩, phase, reached, .inl ⟨isPhase, noPoint⟩⟩

theorem isDigits_of_places {before places : List Char} (isWhole : IsWhole before)
    (all : ∀ c ∈ places, c.isDigit = true) : IsDigits (before ++ '.' :: places) := by
  have reached := NumeralPhase.read?_places isWhole all
  obtain ⟨c, cs, rfl, digit, -⟩ := isWhole
  exact ⟨⟨c, _, rfl, digit⟩, .fraction, reached, .inr ⟨rfl, by simp⟩⟩

theorem isNumeral_of_isDigits {digits : List Char} (isDigits : IsDigits digits) : isNumeral digits = true := by
  obtain ⟨-, phase, reached, isPhase⟩ := isDigits
  refine isNumeral_iff.2 ⟨phase, reached, ?_⟩
  rcases isPhase with ⟨rfl | rfl, -⟩ | ⟨rfl, -⟩ <;> rfl

/-- A numeral without an exponent ends where a word would, unless a first point follows. -/
theorem IsDigits.longest_iff {alphabet : Alphabet} {digits behind : List Char} (isDigits : IsDigits digits)
    (breaks : alphabet.Breaks behind) : (Lexeme.numeral (String.ofList digits)).IsLongest alphabet behind ↔
      ('.' ∉ digits → behind.head? ≠ some '.') := by
  obtain ⟨-, phase, reached, isPhase⟩ := id isDigits
  constructor
  · rintro ⟨isLongest, -⟩ noPoint isPoint
    obtain ⟨text, rfl⟩ := List.head?_eq_some_iff.1 isPoint
    have goesOn : isNumeral (digits ++ ['.']) = true := by
      refine isNumeral_iff.2 ⟨.fraction, ?_, rfl⟩
      rw [NumeralPhase.read?_append, reached, Option.bind_some]
      rcases isPhase with ⟨rfl | rfl, -⟩ | ⟨-, hasPoint⟩
      · rfl
      · rfl
      · exact absurd hasPoint noPoint
    have atMost := isLongest (.numeral (String.ofList (digits ++ ['.'])))
      (by rwa [Lexeme.IsValid, String.toList_ofList]) (by simp [Lexeme.text])
    simp only [Lexeme.text, String.toList_ofList, List.length_append, List.length_singleton] at atMost
    omega
  · intro noPoint
    have isNumeral := isNumeral_of_isDigits isDigits
    rw [← String.toList_ofList (l := digits)] at isNumeral reached
    refine Lexeme.longest_numeral isNumeral reached (fun c isHead => ?_) breaks
    refine NumeralPhase.next?_eq_none ?_ (breaks c isHead) fun isPoint => ?_
    · rcases isPhase with ⟨rfl | rfl, -⟩ | ⟨rfl, -⟩ <;> rfl
    · rcases isPhase with ⟨-, missing⟩ | ⟨isFraction, -⟩
      · exact absurd (isPoint ▸ isHead) (noPoint missing)
      · exact isFraction

/-- A finite number is written with digits. -/
theorem positionalText_of_isFinite {value : Float} (finite : value.isFinite = true) :
    positionalText value = signText value ++ (Decimal.shortest .up value).positional := by
  have known : value.isNaN = false ∧ value.isInf = false := by
    unfold Float.isFinite Float.Model.isFinite at finite
    unfold Float.isNaN Float.isInf Float.Model.isNaN Float.Model.isInf
    cases unpacked : value.toModel.unpack with
    | infinity sign =>
      rw [unpacked] at finite
      cases finite
    | notANumber =>
      rw [unpacked] at finite
      cases finite
    | zero sign => exact ⟨rfl, rfl⟩
    | finite sign mantissa exponent positive => exact ⟨rfl, rfl⟩
  rw [positionalText, known.1, known.2, if_neg Bool.false_ne_true, if_neg Bool.false_ne_true]

/-- The text of a finite number is a numeral with a sign or without one. -/
theorem exists_digits {value : Float} (finite : value.isFinite = true) :
    ∃ sign digits, (numberLiteral value).toList = sign ++ digits ∧ (sign = [] ∨ sign = ['-']) ∧
      IsDigits digits := by
  unfold numberLiteral
  split
  · exact ⟨[], ['0'], rfl, .inl rfl, isDigits_of_isWhole (isWhole_single rfl)⟩
  · rw [positionalText_of_isFinite finite, String.toList_append]
    refine ⟨_, _, rfl, Json.toList_signText value, ?_⟩
    by_cases fraction : (Decimal.shortest .up value).exponent < 0
    · obtain ⟨before, places, text, isWhole, -, all⟩ := Decimal.exists_places fraction
      rw [text]
      exact isDigits_of_places isWhole all
    · exact isDigits_of_isWhole (Decimal.isWhole_positional (by omega) Decimal.exponent_shortest)

/-! ## Calculations -/

/-- The expressions of names, finite numbers, accesses and operators. -/
inductive Calculation (alphabet : Alphabet) : Node → Prop
  | identifier {span : Span} {name : String} (isWord : alphabet.IsWord name) (free : name ∉ reserved) :
      Calculation alphabet ⟨span, .identifier name⟩
  | number {span : Span} {value : Float} (finite : value.isFinite = true) :
      Calculation alphabet ⟨span, .numericLiteral value⟩
  | property {span : Span} {object : Node} {name : String} (isObject : Calculation alphabet object)
      (isWord : alphabet.IsWord name) : Calculation alphabet ⟨span, .propertyAccess object name⟩
  | binary {span : Span} {operator : BinaryOperator} {left right : Node} (isLeft : Calculation alphabet left)
      (isRight : Calculation alphabet right) :
      Calculation alphabet ⟨span, .binaryExpression operator left right⟩
  | unary {span : Span} {operator : UnaryOperator} {operand : Node} (isOperand : Calculation alphabet operand) :
      Calculation alphabet ⟨span, .unaryExpression operator operand⟩
  | update {span : Span} {operator : UpdateOperator} {isPrefix : Bool} {operand : Node}
      (isOperand : Calculation alphabet operand) :
      Calculation alphabet ⟨span, .updateExpression operator isPrefix operand⟩

section Printing

variable {alphabet : Alphabet} {node : Node} {least level : Nat}

theorem Calculation.isExpression (isCalculation : Calculation alphabet node) :
    node.form.isExpression = true := by
  cases isCalculation <;> rfl

/-- A text with a character at its front that is no equals sign, and that is a minus sign if it is said to be. -/
def LeadsWith (minus : Bool) (text : String) : Prop :=
  ∃ c cs, text.toList = c :: cs ∧ c ≠ '=' ∧ (c = '-' ↔ minus = true)

theorem LeadsWith.append {minus : Bool} {text : String} (leads : LeadsWith minus text) (behind : String) :
    LeadsWith minus (text ++ behind) := by
  obtain ⟨c, cs, isText, other⟩ := leads
  exact ⟨c, cs ++ behind.toList, by rw [String.toList_append, isText, List.cons_append], other⟩

theorem leadsWith_shown (isExpression : node.form.isExpression = true)
    (leads : LeadsWith node.leadsWithMinus (node.textAt level)) :
    LeadsWith (least ≤ Precedence.ofKind node.kind && node.leadsWithMinus) (shown least level node) := by
  rw [shown_eq isExpression]
  split
  · next looser =>
    rw [decide_eq_false (Nat.not_le.2 looser)]
    exact ⟨'(', (node.textAt level ++ ")").toList, by simp, by decide, by simp⟩
  · next enough => rwa [decide_eq_true (Nat.le_of_not_lt enough)]

/-- What the text of a calculation begins with. -/
theorem Calculation.leadsWith (isCalculation : Calculation alphabet node) (level : Nat) :
    LeadsWith node.leadsWithMinus (node.textAt level) := by
  induction isCalculation with
  | @identifier span name isWord free =>
    obtain ⟨c, cs, isName, -, parts⟩ := isWord.exists_cons
    have part := parts c (.head _)
    refine ⟨c, cs, isName, ?_, ?_⟩
    · rintro rfl
      cases part.symm.trans (alphabet.isPart_of_ascii (by decide))
    · refine iff_of_false ?_ Bool.false_ne_true
      rintro rfl
      cases part.symm.trans (alphabet.isPart_of_ascii (by decide))
  | @number span value finite =>
    obtain ⟨sign, digits, isText, isSign, ⟨c, cs, rfl, digit⟩, -⟩ := exists_digits finite
    have isMinus : (⟨span, .numericLiteral value⟩ : Node).leadsWithMinus = true ↔
        (numberLiteral value).toList.head? = some '-' := decide_eq_true_iff
    rcases isSign with rfl | rfl
    · refine ⟨c, cs, isText, ?_, ?_⟩
      · rintro rfl
        cases digit
      · rw [isMinus, isText]
        exact ⟨fun isHead => congrArg some isHead, Option.some.inj⟩
    · refine ⟨'-', c :: cs, isText, by decide, ?_⟩
      rw [isMinus, isText]
      exact iff_of_true rfl rfl
  | property isObject isWord ih => exact ((leadsWith_shown isObject.isExpression ih).append _).append _
  | @binary span operator left right isLeft isRight ih ih' =>
    rw [Node.textAt_eq]
    show LeadsWith _ ((Kind.binaryExpression operator (left, left.textAt) (right, right.textAt)).textOf level)
    rw [textOf_operation]
    exact ((leadsWith_shown isLeft.isExpression ih).append _).append _
  | @unary span operator operand isOperand ih =>
    refine LeadsWith.append (LeadsWith.append ?_ _) _
    show LeadsWith (operator = .negate) operator.text
    cases operator <;> exact ⟨_, _, rfl, by decide, by decide⟩
  | @update span operator isPrefix operand isOperand ih =>
    cases isPrefix
    · exact (leadsWith_shown isOperand.isExpression ih).append _
    · refine LeadsWith.append ?_ _
      show LeadsWith (operator = .decrement) operator.text
      cases operator <;> exact ⟨_, _, rfl, by decide, by decide⟩

/-! ## How a text splits -/

theorem forall_subtree_iff {holds : Node → Prop} : (∀ inner ∈ node.subtree, holds inner) ↔
    holds node ∧ ∀ child ∈ node.children, ∀ inner ∈ child.subtree, holds inner := by
  rw [Node.subtree_eq, List.forall_mem_cons]
  simp only [List.mem_flatMap, forall_exists_index, and_imp]
  exact and_congr_right' ⟨fun each child isChild inner => each inner child isChild,
    fun each inner child isChild => each child isChild inner⟩

/-- All nodes of the expression are apart from their operands. -/
def AllApart (node : Node) : Prop := ∀ inner ∈ node.subtree, inner.isApart = true

theorem allApart_iff : AllApart node ↔ node.isApart = true ∧ ∀ child ∈ node.children, AllApart child :=
  forall_subtree_iff

namespace Splits

variable {text : List Char} {more : List Lexeme}

theorem word_iff {name : String} (isWord : alphabet.IsWord name) (breaks : alphabet.Breaks text) :
    Splits alphabet (name.toList ++ text) (.word name :: more) ↔ Splits alphabet text more :=
  (lexeme_iff (show (Lexeme.word name).IsValid alphabet from isWord)).trans
    (and_iff_right (Lexeme.longest_word isWord breaks))

theorem mark_iff (mark : String) (isMark : mark ∈ marks) (notPoint : mark ≠ ".")
    (next : ∀ c ∈ text.head?, c ∉ continuations mark) :
    Splits alphabet (mark.toList ++ text) (.mark mark :: more) ↔ Splits alphabet text more :=
  (lexeme_iff (show (Lexeme.mark mark).IsValid alphabet from isMark)).trans
    (and_iff_right (Lexeme.longest_mark isMark next fun isPoint => absurd isPoint notPoint))

/-- A mark that does not go on with anything. -/
theorem mark_iff_of_nil (mark : String) (isMark : mark ∈ marks) (notPoint : mark ≠ ".")
    (none : continuations mark = []) :
    Splits alphabet (mark.toList ++ text) (.mark mark :: more) ↔ Splits alphabet text more :=
  mark_iff mark isMark notPoint fun _ _ => none ▸ List.not_mem_nil

/-- A token in front of a space. -/
theorem token_iff {token : Token} (isValid : token.IsValid alphabet) (notPoint : token ≠ .mark ".") :
    Splits alphabet (token.text.toList ++ ' ' :: text) (token.lexeme :: more) ↔ Splits alphabet text more := by
  cases token with
  | word name => exact (word_iff isValid (Alphabet.breaks_cons (by decide))).trans space_iff
  | mark mark =>
    have next : ∀ mark ∈ marks, ' ' ∉ continuations mark := by decide
    refine (mark_iff mark isValid (fun isPoint => notPoint (isPoint ▸ rfl)) fun c isHead => ?_).trans space_iff
    cases isHead
    exact next mark isValid

end Splits

/-- In front of any other text, which begins with a point only where the precedence admits an access, the text
splits into the lexemes exactly if all nodes of the expression are apart, and it is no whole number before a
point. -/
def IsSplit (alphabet : Alphabet) (precedence : Nat) (node : Node) (text : String) (lexemes : List Lexeme) :
    Prop :=
  ∀ following more, alphabet.Breaks following →
    (following.head? = some '.' → Precedence.member ≤ precedence) →
      (Splits alphabet (text.toList ++ following) (lexemes.flatMap Lexeme.parts ++ more) ↔
        AllApart node ∧ (node.isWholeLiteral = true → following.head? ≠ some '.') ∧
          Splits alphabet following more)

/-- The text of the node by itself splits into its lexemes. -/
def IsSplitAlone (alphabet : Alphabet) (level : Nat) (node : Node) : Prop :=
  IsSplit alphabet (Precedence.ofKind node.kind) node (node.textAt level) node.lexemes

/-- What a place shows of the node splits into the lexemes there. -/
def IsSplitIn (alphabet : Alphabet) (level least : Nat) (node : Node) : Prop :=
  IsSplit alphabet least node (shown least level node) (Lexeme.placed least (node, node.lexemes))

theorem ofKind_of_isWholeLiteral (isWhole : node.isWholeLiteral = true) :
    Precedence.ofKind node.kind = Precedence.primary := by
  unfold Node.isWholeLiteral at isWhole
  split at isWhole
  · next isLiteral => rw [isLiteral]; rfl
  · cases isWhole

/-- A place splits like the expression in it. -/
theorem IsSplitAlone.placed (isSplit : IsSplitAlone alphabet level node)
    (isExpression : node.form.isExpression = true) (atMost : least ≤ Precedence.primary) :
    IsSplitIn alphabet level least node := by
  intro following more breaks point
  rw [shown_eq isExpression, Lexeme.placed]
  by_cases looser : Precedence.ofKind node.kind < least
  · rw [if_pos looser, if_pos looser]
    have notWhole : node.isWholeLiteral = false := Bool.eq_false_iff.2 fun isWhole => by
      rw [ofKind_of_isWholeLiteral isWhole] at looser
      omega
    have closing := isSplit (')' :: following) (.mark ")" :: more) (Alphabet.breaks_cons (by decide)) nofun
    have closed : Splits alphabet (')' :: following) (.mark ")" :: more) ↔ Splits alphabet following more :=
      Splits.mark_iff_of_nil ")" (by decide) (by decide) (by decide)
    have opened : Splits alphabet (("(" ++ node.textAt level ++ ")").toList ++ following)
        ((Lexeme.mark "(" :: (node.lexemes ++ [.mark ")"])).flatMap Lexeme.parts ++ more) ↔
          Splits alphabet ((node.textAt level).toList ++ ')' :: following)
            (node.lexemes.flatMap Lexeme.parts ++ .mark ")" :: more) := by
      simpa [Lexeme.parts] using Splits.mark_iff_of_nil "(" (by decide) (by decide) (by decide)
    rw [opened, closing, closed, notWhole]
    simp
  · rw [if_neg looser, if_neg looser]
    exact isSplit following more breaks fun isPoint => Nat.le_trans (point isPoint) (Nat.le_of_not_lt looser)

theorem Splits.numeral_iff {digits text : List Char} {more : List Lexeme} (isDigits : IsDigits digits)
    (breaks : alphabet.Breaks text) :
    Splits alphabet (digits ++ text) (.numeral (String.ofList digits) :: more) ↔
      ('.' ∉ digits → text.head? ≠ some '.') ∧ Splits alphabet text more := by
  have isValid : (Lexeme.numeral (String.ofList digits)).IsValid alphabet := by
    rw [Lexeme.IsValid, String.toList_ofList]
    exact isNumeral_of_isDigits isDigits
  have split : Splits alphabet (_ ++ text) (_ :: more) ↔ _ := Splits.lexeme_iff isValid
  rwa [Lexeme.text, String.toList_ofList, isDigits.longest_iff breaks] at split

/-- The text of a number splits into its sign and its digits, where no point behind it is read. -/
theorem splits_number_iff {value : Float} {text : List Char} {more : List Lexeme}
    (finite : value.isFinite = true)
    (breaks : alphabet.Breaks text) :
    Splits alphabet ((numberLiteral value).toList ++ text)
        ((Lexeme.numeral (numberLiteral value)).parts ++ more) ↔
      ('.' ∉ (numberLiteral value).toList → text.head? ≠ some '.') ∧ Splits alphabet text more := by
  obtain ⟨sign, digits, isText, isSign, isDigits⟩ := exists_digits finite
  obtain ⟨c, cs, begins, digit⟩ := isDigits.begins
  have notMinus : c ≠ '-' := fun isMinus => by
    rw [isMinus] at digit
    cases digit
  rcases isSign with rfl | rfl
  · have literal : numberLiteral value = String.ofList digits := String.toList_inj.1 (by simpa using isText)
    rw [Lexeme.parts_of_unsigned (by simpa [isText, begins] using notMinus), literal, String.toList_ofList]
    exact Splits.numeral_iff isDigits breaks
  · have sameParts : (Lexeme.numeral (numberLiteral value)).parts =
      [.mark "-", .numeral (String.ofList digits)] :=
      Lexeme.parts_of_signed isText
    have apart : ∀ first ∈ (digits ++ text).head?, first ∉ continuations "-" := by
      intro first isFirst
      rw [begins] at isFirst
      cases isFirst
      rw [show continuations "-" = ['-', '='] by decide]
      rintro (_ | ⟨_, _ | ⟨_, ⟨⟩⟩⟩)
      · exact notMinus rfl
      · cases digit
    have signed : Splits alphabet (_ ++ (digits ++ text)) (_ :: .numeral (String.ofList digits) :: more) ↔ _ :=
      Splits.mark_iff "-" (by decide) (by decide) apart
    rw [sameParts, isText]
    refine signed.trans ((Splits.numeral_iff isDigits breaks).trans ?_)
    simp

/-- The point and the name of an access. -/
theorem Splits.access_iff {name : String} {text : List Char} {more : List Lexeme}
    (isWord : alphabet.IsWord name)
    (breaks : alphabet.Breaks text) :
    Splits alphabet ('.' :: (name.toList ++ text)) (.mark "." :: .word name :: more) ↔
      Splits alphabet text more := by
  obtain ⟨c, cs, isName, start, -⟩ := id isWord
  have part := alphabet.isPart_of_isStart c start
  refine Iff.trans ?_ (Splits.word_iff isWord breaks)
  have isValid : (Lexeme.mark ".").IsValid alphabet := show "." ∈ marks by decide
  refine (Splits.lexeme_iff isValid).trans (and_iff_right ?_)
  refine Lexeme.longest_mark (by decide) (fun first isFirst => ?_) fun _ first isFirst => ?_
  · rw [isName] at isFirst
    cases isFirst
    rw [show continuations "." = ['.'] by decide, List.mem_singleton]
    rintro rfl
    cases part.symm.trans Alphabet.isPart_point
  · rw [isName] at isFirst
    cases isFirst
    exact Bool.eq_false_iff.2 fun digit => by cases (Alphabet.isStart_of_digit digit).symm.trans start

/-- What is written between two operands. -/
theorem Splits.between_iff {operator : BinaryOperator} {text : List Char} {more : List Lexeme} :
    Splits alphabet (operator.between.toList ++ text) (operator.token.lexeme :: more) ↔
      Splits alphabet text more := by
  by_cases isComma : operator = .comma
  · subst isComma
    exact (Splits.mark_iff_of_nil "," (by decide) (by decide) (by decide)).trans Splits.space_iff
  · have notPoint : operator.token ≠ .mark "." := by cases operator <;> decide
    have isValid : operator.token.IsValid alphabet := isValid_binary operator
    have split : Splits alphabet (_ ++ ' ' :: text) (_ :: more) ↔ _ := Splits.token_iff isValid notPoint
    rw [text_binary] at split
    rw [BinaryOperator.between, if_neg isComma, ← split]
    simpa using Splits.space_iff

/-- What is written in front of an operand, which begins with that character. A minus sign in front of another
one would be a part of a longer mark. -/
theorem Splits.unary_iff {operator : UnaryOperator} {c : Char} {cs : List Char} {more : List Lexeme}
    (other : c ≠ '=') :
    Splits alphabet ((operator.text ++ if operator.isWord then " " else "").toList ++ c :: cs)
        (operator.token.lexeme :: more) ↔
      (operator = .negate → c ≠ '-') ∧ Splits alphabet (c :: cs) more := by
  by_cases isWord : operator.isWord = true
  · have notPoint : operator.token ≠ .mark "." := by cases operator <;> decide
    have notMinus : operator ≠ .negate := by
      rintro rfl
      cases isWord
    have isValid : operator.token.IsValid alphabet := isValid_unary operator
    have split : Splits alphabet (_ ++ ' ' :: c :: cs) (_ :: more) ↔ _ := Splits.token_iff isValid notPoint
    rw [text_unary] at split
    rw [if_pos isWord, String.toList_append, List.append_assoc,
      and_iff_right fun isMinus => absurd isMinus notMinus]
    exact split
  · have isMark : operator = .not ∨ operator = .negate := by cases operator <;> simp_all [UnaryOperator.isWord]
    rw [if_neg isWord]
    rcases isMark with rfl | rfl
    · refine (Splits.mark_iff "!" (by decide) (by decide) fun first isFirst => ?_).trans
        (and_iff_right fun same => absurd same (by decide)).symm
      cases isFirst
      rw [show continuations "!" = ['=', '='] by decide]
      simpa using other
    · have isMinus : (Lexeme.mark "-").IsValid alphabet := show "-" ∈ marks by decide
      refine (Splits.lexeme_iff isMinus).trans (and_congr_left' ?_)
      constructor
      · rintro ⟨isLongest, -⟩ - rfl
        have shorter := isLongest (.mark "--") (show "--" ∈ marks by decide) ⟨cs, rfl⟩
        exact absurd shorter (by decide)
      · intro notMinus
        refine Lexeme.longest_mark (by decide) (fun first isFirst => ?_) fun same => absurd same (by decide)
        cases isFirst
        rw [show continuations "-" = ['-', '='] by decide]
        simpa using ⟨notMinus rfl, other⟩

theorem Lexeme.parts_lexeme (token : Token) : token.lexeme.parts = [token.lexeme] := by
  cases token <;> rfl

/-! ### One rule for each form -/

namespace IsSplitIn

variable {span : Span} {first second : Node}

theorem property {name : String} (isWord : alphabet.IsWord name)
    (isObject : IsSplitIn alphabet level Precedence.member first) :
    IsSplitAlone alphabet level ⟨span, .propertyAccess first name⟩ := by
  intro following more breaks _
  have isShown := isObject ('.' :: (name.toList ++ following)) (.mark "." :: .word name :: more)
    (Alphabet.breaks_cons (by decide)) fun _ => Nat.le_refl _
  rw [Splits.access_iff isWord breaks] at isShown
  have text : (Node.textAt ⟨span, .propertyAccess first name⟩ level).toList ++ following =
      (shown Precedence.member level first).toList ++ '.' :: (name.toList ++ following) := by
    rw [show Node.textAt ⟨span, .propertyAccess first name⟩ level =
      shown Precedence.member level first ++ "." ++ name from rfl]
    simp
  have own : (Node.lexemes ⟨span, .propertyAccess first name⟩).flatMap Lexeme.parts ++ more =
      (Lexeme.placed Precedence.member (first, first.lexemes)).flatMap Lexeme.parts ++
        .mark "." :: .word name :: more := by
    rw [Node.lexemes_eq]
    simp [Node.kind, Kind.map, Kind.lexemesOf, Lexeme.parts]
  have allApart : AllApart ⟨span, .propertyAccess first name⟩ ↔
      first.isWholeLiteral = false ∧ AllApart first := by
    rw [allApart_iff]
    show (!first.isWholeLiteral) = true ∧ (∀ child ∈ [first], AllApart child) ↔ _
    rw [List.forall_mem_singleton, Bool.not_eq_true']
  rw [text, own, isShown, allApart]
  constructor
  · rintro ⟨apart, noWhole, splits⟩
    exact ⟨⟨Bool.eq_false_iff.2 fun isWhole => noWhole isWhole rfl, apart⟩, (absurd · Bool.false_ne_true),
      splits⟩
  · rintro ⟨⟨notWhole, apart⟩, -, splits⟩
    exact ⟨apart, fun isWhole => (by cases notWhole.symm.trans isWhole), splits⟩

theorem binary {operator : BinaryOperator}
    (isLeft : IsSplitIn alphabet level operator.leastLeft first)
    (isRight : IsSplitIn alphabet level operator.leastRight second) :
    IsSplitAlone alphabet level ⟨span, .binaryExpression operator first second⟩ := by
  intro following more breaks point
  have notPoint : following.head? ≠ some '.' := fun isPoint => by
    have member : Precedence.member ≤ Precedence.ofOperator operator := point isPoint
    cases operator <;> exact absurd member (by decide)
  obtain ⟨d, ds, isBetween, ascii⟩ :
      ∃ d ds, operator.between.toList = d :: ds ∧ d ≠ '.' ∧ d.toNat < 128 ∧ isAsciiPart d = false := by
    cases operator <;> exact ⟨_, _, rfl, by decide⟩
  have isSecond := isRight following more breaks fun isPoint => absurd isPoint notPoint
  have isFirst := isLeft
    (operator.between.toList ++ ((shown operator.leastRight level second).toList ++ following))
    (operator.token.lexeme ::
      ((Lexeme.placed operator.leastRight (second, second.lexemes)).flatMap Lexeme.parts ++ more))
    (by rw [isBetween]; exact Alphabet.breaks_cons ascii.2)
    (fun isPoint => by rw [isBetween] at isPoint; exact absurd (Option.some.inj isPoint) ascii.1)
  rw [Splits.between_iff, isSecond] at isFirst
  have text : (Node.textAt ⟨span, .binaryExpression operator first second⟩ level).toList ++ following =
      (shown operator.leastLeft level first).toList ++
        (operator.between.toList ++ ((shown operator.leastRight level second).toList ++ following)) := by
    rw [Node.textAt_eq]
    simp [Node.kind, Kind.map, textOf_operation]
  have own : (Node.lexemes ⟨span, .binaryExpression operator first second⟩).flatMap Lexeme.parts ++ more =
      (Lexeme.placed operator.leastLeft (first, first.lexemes)).flatMap Lexeme.parts ++
        (operator.token.lexeme ::
          ((Lexeme.placed operator.leastRight (second, second.lexemes)).flatMap Lexeme.parts ++ more)) := by
    rw [Node.lexemes_eq]
    simp [Node.kind, Kind.map, Kind.lexemesOf, Lexeme.parts_lexeme]
  have allApart : AllApart ⟨span, .binaryExpression operator first second⟩ ↔
      AllApart first ∧ AllApart second := by
    rw [allApart_iff]
    show true = true ∧ (∀ child ∈ [first, second], AllApart child) ↔ _
    simp
  rw [text, own, isFirst, allApart]
  constructor
  · rintro ⟨apart, -, apart', -, splits⟩
    exact ⟨⟨apart, apart'⟩, (absurd · Bool.false_ne_true), splits⟩
  · rintro ⟨⟨apart, apart'⟩, -, splits⟩
    refine ⟨apart, fun _ isPoint => ?_, apart', fun _ => notPoint, splits⟩
    rw [isBetween] at isPoint
    exact ascii.1 (Option.some.inj isPoint)

theorem unary {operator : UnaryOperator} (isExpression : first.form.isExpression = true)
    (leads : LeadsWith first.leadsWithMinus (first.textAt level))
    (isOperand : IsSplitIn alphabet level Precedence.unary first) :
    IsSplitAlone alphabet level ⟨span, .unaryExpression operator first⟩ := by
  intro following more breaks point
  have notPoint : following.head? ≠ some '.' := fun isPoint =>
    absurd (show Precedence.member ≤ Precedence.unary from point isPoint) (by decide)
  have leads : LeadsWith _ (shown Precedence.unary level first) := leadsWith_shown isExpression leads
  obtain ⟨c, cs, isText, other, isMinus⟩ := leads
  have isShown := isOperand following more breaks fun isPoint => absurd isPoint notPoint
  have text : (Node.textAt ⟨span, .unaryExpression operator first⟩ level).toList ++ following =
      (operator.text ++ if operator.isWord then " " else "").toList ++ c :: (cs ++ following) := by
    rw [show Node.textAt ⟨span, .unaryExpression operator first⟩ level =
      operator.text ++ (if operator.isWord then " " else "") ++ shown Precedence.unary level first from rfl,
      String.toList_append, isText]
    simp
  have own : (Node.lexemes ⟨span, .unaryExpression operator first⟩).flatMap Lexeme.parts ++ more =
      operator.token.lexeme ::
        ((Lexeme.placed Precedence.unary (first, first.lexemes)).flatMap Lexeme.parts ++ more) := by
    rw [Node.lexemes_eq]
    simp [Node.kind, Kind.map, Kind.lexemesOf, Lexeme.parts_lexeme]
  have allApart : AllApart ⟨span, .unaryExpression operator first⟩ ↔
      (operator = .negate → c ≠ '-') ∧ AllApart first := by
    rw [allApart_iff]
    show _ ∧ (∀ child ∈ [first], AllApart child) ↔ _
    rw [List.forall_mem_singleton, Ne, isMinus]
    refine and_congr_left' ?_
    cases operator with
    | negate =>
      show (!(decide _ && first.leadsWithMinus)) = true ↔ _
      rw [Bool.not_eq_true', ← Bool.not_eq_true]
      simp
    | _ => exact iff_of_true rfl fun same => absurd same (by decide)
  rw [text, own, Splits.unary_iff other, ← List.cons_append, ← isText, isShown, allApart]
  constructor
  · rintro ⟨apart, apart', -, splits⟩
    exact ⟨⟨apart, apart'⟩, (absurd · Bool.false_ne_true), splits⟩
  · rintro ⟨⟨apart, apart'⟩, -, splits⟩
    exact ⟨apart, apart', fun _ => notPoint, splits⟩

theorem allApart_update {operator : UpdateOperator} {isPrefix : Bool} :
    AllApart ⟨span, .updateExpression operator isPrefix first⟩ ↔ AllApart first := by
  rw [allApart_iff]
  show true = true ∧ (∀ child ∈ [first], AllApart child) ↔ _
  simp

theorem mark_update {operator : UpdateOperator} {text : List Char} {more : List Lexeme} :
    Splits alphabet (operator.text.toList ++ text) (operator.token.lexeme :: more) ↔
      Splits alphabet text more := by
  cases operator <;> exact Splits.mark_iff_of_nil _ (by decide) (by decide) (by decide)

theorem before {operator : UpdateOperator}
    (isOperand : IsSplitIn alphabet level Precedence.member first) :
    IsSplitAlone alphabet level ⟨span, .updateExpression operator true first⟩ := by
  intro following more breaks point
  have notPoint : following.head? ≠ some '.' := fun isPoint =>
    absurd (show Precedence.member ≤ Precedence.update from point isPoint) (by decide)
  have isShown := isOperand following more breaks fun isPoint => absurd isPoint notPoint
  have text : (Node.textAt ⟨span, .updateExpression operator true first⟩ level).toList ++ following =
      operator.text.toList ++ ((shown Precedence.member level first).toList ++ following) := by
    rw [show Node.textAt ⟨span, .updateExpression operator true first⟩ level =
      operator.text ++ shown Precedence.member level first from rfl]
    simp
  have own : (Node.lexemes ⟨span, .updateExpression operator true first⟩).flatMap Lexeme.parts ++ more =
      operator.token.lexeme ::
        ((Lexeme.placed Precedence.member (first, first.lexemes)).flatMap Lexeme.parts ++ more) := by
    rw [Node.lexemes_eq]
    simp [Node.kind, Kind.map, Kind.lexemesOf, Lexeme.parts_lexeme]
  rw [text, own, mark_update, isShown, allApart_update]
  exact and_congr_right' (and_congr_left' (iff_of_true (fun _ => notPoint) (absurd · Bool.false_ne_true)))

theorem after {operator : UpdateOperator}
    (isOperand : IsSplitIn alphabet level Precedence.member first) :
    IsSplitAlone alphabet level ⟨span, .updateExpression operator false first⟩ := by
  intro following more breaks _
  obtain ⟨d, ds, isText, notPoint, ascii⟩ :
      ∃ d ds, operator.text.toList = d :: ds ∧ d ≠ '.' ∧ d.toNat < 128 ∧ isAsciiPart d = false := by
    cases operator <;> exact ⟨_, _, rfl, by decide⟩
  have isHead : (operator.text.toList ++ following).head? ≠ some '.' := by
    rw [isText]
    exact fun isPoint => notPoint (Option.some.inj isPoint)
  have isShown := isOperand (operator.text.toList ++ following) (operator.token.lexeme :: more)
    (by rw [isText]; exact Alphabet.breaks_cons ascii) fun isPoint => absurd isPoint isHead
  have text : (Node.textAt ⟨span, .updateExpression operator false first⟩ level).toList ++ following =
      (shown Precedence.member level first).toList ++ (operator.text.toList ++ following) := by
    rw [show Node.textAt ⟨span, .updateExpression operator false first⟩ level =
      shown Precedence.member level first ++ operator.text from rfl]
    simp
  have own : (Node.lexemes ⟨span, .updateExpression operator false first⟩).flatMap Lexeme.parts ++ more =
      (Lexeme.placed Precedence.member (first, first.lexemes)).flatMap Lexeme.parts ++
        operator.token.lexeme :: more := by
    rw [Node.lexemes_eq]
    simp [Node.kind, Kind.map, Kind.lexemesOf, Lexeme.parts_lexeme]
  rw [text, own, isShown, mark_update, allApart_update]
  exact and_congr_right' (and_congr_left' (iff_of_true (fun _ => isHead) (absurd · Bool.false_ne_true)))

end IsSplitIn

/-- The text of a calculation splits into its lexemes exactly if all nodes in it are apart. -/
theorem Calculation.isSplitAlone (isCalculation : Calculation alphabet node) (level : Nat) :
    IsSplitAlone alphabet level node := by
  induction isCalculation with
  | @identifier span name isWord free =>
    intro following more breaks point
    have allApart : AllApart ⟨span, .identifier name⟩ := allApart_iff.2 ⟨rfl, List.forall_mem_nil _⟩
    refine (Splits.word_iff isWord breaks).trans
      ⟨fun splits => ⟨allApart, (absurd · Bool.false_ne_true), splits⟩, fun facts => facts.2.2⟩
  | @number span value finite =>
    intro following more breaks point
    have allApart : AllApart ⟨span, .numericLiteral value⟩ := allApart_iff.2 ⟨rfl, List.forall_mem_nil _⟩
    have isWhole : (⟨span, .numericLiteral value⟩ : Node).isWholeLiteral = true ↔
        '.' ∉ (numberLiteral value).toList := by
      show (!(numberLiteral value).toList.contains '.') = true ↔ _
      simp
    rw [isWhole, and_iff_right allApart, ← splits_number_iff finite breaks]
    show Splits alphabet _ ([Lexeme.numeral (numberLiteral value)].flatMap Lexeme.parts ++ more) ↔ _
    rw [List.flatMap_singleton]
    exact Iff.rfl
  | @property span object name isObject isWord ih =>
    exact (ih.placed isObject.isExpression (by decide)).property isWord
  | @binary span operator left right isLeft isRight ih ih' =>
    exact (ih.placed isLeft.isExpression operator.leastLeft_le_primary).binary
      (ih'.placed isRight.isExpression operator.leastRight_le_primary)
  | unary isOperand ih =>
    exact (ih.placed isOperand.isExpression (by decide)).unary isOperand.isExpression
      (isOperand.leadsWith level)
  | @update _ _ isPrefix _ isOperand ih =>
    cases isPrefix
    · exact (ih.placed isOperand.isExpression (by decide)).after
    · exact (ih.placed isOperand.isExpression (by decide)).before

end Printing

end Script

end Resumable
