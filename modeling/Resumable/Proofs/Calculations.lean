import Resumable.Proofs.Signs

/-!
# Calculations are told apart

The text of a calculation splits into the lexemes of its nodes exactly if the nodes are apart and no literal is
negative, as a negative number is two lexemes (`Calculation.splits_print`).  Then its structure can be read off
the lexemes: two such calculations with the same text have the same operators in the same places, between names
and numbers of the same texts (`Node.spelled`).
-/

namespace Resumable

open Script

namespace Node

/-- The expression without source ranges, with a name in the place of each number. -/
def spelled : Node → Node :=
  para fun _ parts =>
    match parts.map Prod.snd with
    | .numericLiteral value => .synthetic (.identifier (numberLiteral value))
    | kind => .synthetic kind

theorem spelled_eq (node : Node) : node.spelled =
    match node.kind.map spelled with
    | .numericLiteral value => .synthetic (.identifier (numberLiteral value))
    | kind => .synthetic kind := by
  unfold spelled
  rw [para_eq, Kind.map_map]
  rfl

end Node

namespace Script

variable {alphabet : Alphabet} {node : Node}

/-! ## Negative literals -/

/-- No numeral among the lexemes has a sign. -/
def Unsigned (lexemes : List Lexeme) : Prop :=
  ∀ text, Lexeme.numeral text ∈ lexemes → text.toList.head? ≠ some '-'

namespace Unsigned

variable {lexemes others : List Lexeme}

theorem nil : Unsigned [] := fun _ mem => nomatch mem

theorem append_iff : Unsigned (lexemes ++ others) ↔ Unsigned lexemes ∧ Unsigned others := by
  simp only [Unsigned, List.mem_append, or_imp, forall_and]

theorem token_iff (token : Token) : Unsigned (token.lexeme :: lexemes) ↔ Unsigned lexemes := by
  simp only [Unsigned, List.mem_cons, or_imp, forall_and]
  refine and_iff_right fun text same => ?_
  cases token <;> cases same

theorem placed_iff {least : Nat} : Unsigned (Lexeme.placed least (node, lexemes)) ↔ Unsigned lexemes := by
  unfold Lexeme.placed
  split
  · refine (token_iff (.mark "(")).trans (append_iff.trans (and_iff_left ?_))
    exact (token_iff (.mark ")")).2 nil
  · exact Iff.rfl

/-- Numerals without signs are lexemes. -/
theorem flatMap_parts (unsigned : Unsigned lexemes) : lexemes.flatMap Lexeme.parts = lexemes := by
  induction lexemes with
  | nil => rfl
  | cons lexeme lexemes ih =>
    have alone : lexeme.parts = [lexeme] := by
      cases lexeme with
      | word | mark => rfl
      | numeral text => exact Lexeme.parts_of_unsigned (unsigned text (.head _))
    rw [List.flatMap_cons, alone, ih fun text mem => unsigned text (.tail _ mem), List.singleton_append]

end Unsigned

/-- No literal in the expression is negative. -/
def NoneNegative (node : Node) : Prop := ∀ inner ∈ node.subtree, inner.isNegativeLiteral = false

theorem noneNegative_iff : NoneNegative node ↔
    node.isNegativeLiteral = false ∧ ∀ child ∈ node.children, NoneNegative child :=
  forall_subtree_iff

/-- A numeral has a sign where a literal is negative. -/
theorem Calculation.unsigned_iff (isCalculation : Calculation alphabet node) :
    Unsigned node.lexemes ↔ NoneNegative node := by
  induction isCalculation with
  | @identifier span name isWord free =>
    refine iff_of_true ((Unsigned.token_iff (.word name)).2 .nil) ?_
    exact noneNegative_iff.2 ⟨rfl, List.forall_mem_nil _⟩
  | @number span value finite =>
    rw [noneNegative_iff]
    show (∀ text, Lexeme.numeral text ∈ [.numeral (numberLiteral value)] → _) ↔
      decide ((numberLiteral value).toList.head? = some '-') = false ∧ ∀ child ∈ [], _
    simp
  | @property span object name isObject isWord ih =>
    rw [noneNegative_iff, Node.lexemes_eq]
    show Unsigned (Lexeme.placed Precedence.member (object, object.lexemes) ++ [.mark ".", .word name]) ↔
      false = false ∧ ∀ child ∈ [object], NoneNegative child
    have rest : Unsigned [.mark ".", .word name] :=
      (Unsigned.token_iff (.mark ".")).2 ((Unsigned.token_iff (.word name)).2 .nil)
    rw [Unsigned.append_iff, Unsigned.placed_iff, ih, List.forall_mem_singleton]
    simp [rest]
  | @binary span operator left right isLeft isRight ih ih' =>
    rw [noneNegative_iff, Node.lexemes_eq]
    show Unsigned (Lexeme.placed operator.leastLeft (left, left.lexemes) ++
        operator.token.lexeme :: Lexeme.placed operator.leastRight (right, right.lexemes)) ↔
      false = false ∧ ∀ child ∈ [left, right], NoneNegative child
    rw [Unsigned.append_iff, Unsigned.token_iff, Unsigned.placed_iff, Unsigned.placed_iff, ih, ih']
    simp
  | @unary span operator operand isOperand ih =>
    rw [noneNegative_iff, Node.lexemes_eq]
    show Unsigned (operator.token.lexeme :: Lexeme.placed Precedence.unary (operand, operand.lexemes)) ↔
      false = false ∧ ∀ child ∈ [operand], NoneNegative child
    rw [Unsigned.token_iff, Unsigned.placed_iff, ih]
    simp
  | @update span operator isPrefix operand isOperand ih =>
    have own : Unsigned (Node.lexemes ⟨span, .updateExpression operator isPrefix operand⟩) ↔
        Unsigned operand.lexemes := by
      rw [Node.lexemes_eq]
      cases isPrefix
      · show Unsigned (Lexeme.placed Precedence.member (operand, operand.lexemes) ++ [operator.token.lexeme])
          ↔ _
        rw [Unsigned.append_iff, Unsigned.placed_iff]
        exact and_iff_left ((Unsigned.token_iff _).2 .nil)
      · exact (Unsigned.token_iff _).trans Unsigned.placed_iff
    refine (own.trans ih).trans (Iff.trans ?_ noneNegative_iff.symm)
    show NoneNegative operand ↔ false = false ∧ ∀ child ∈ [operand], NoneNegative child
    simp

/-! ## Structure -/

/-- The tokens are read as the tree, as a phrase of each kind that the precedence admits. -/
def IsPhrase (precedence : Nat) (tokens : List Token) (tree : Node) : Prop :=
  ∀ kind : Phrase, kind.least ≤ precedence → Opens kind tokens ∧ IsRead kind tokens tree

namespace IsPhrase

variable {precedence : Nat} {first second : List Token} {left right : Node}

theorem of_isRead {inner : Phrase} (opens : Opens inner first) (isRead : IsRead inner first left)
    (below : ∀ next ∈ inner.next?, precedence < next.least) : IsPhrase precedence first left := by
  intro kind admits
  have le := Phrase.rank_le_of_least_le below admits
  exact ⟨opens.of_le le, isRead.lift opens le⟩

theorem enclosed (isPhrase : IsPhrase precedence first left) (least : Nat) :
    IsPhrase least (.mark "(" :: (first ++ [.mark ")"])) left := by
  have opens : Opens .primary (.mark "(" :: (first ++ [.mark ")"])) :=
    ⟨_, _, rfl, .primary, rfl, by decide⟩
  have isRead := (isPhrase .expression (Nat.zero_le _)).2.enclosed
  intro kind _
  exact ⟨opens.of_le (Phrase.rank_le_primary kind), isRead.lift opens (Phrase.rank_le_primary kind)⟩

theorem atom {word : String} (free : word ∉ reserved) :
    IsPhrase Precedence.primary [.word word] (.synthetic (.identifier word)) := by
  have isAtom := atom?_identifier free
  exact of_isRead ⟨_, _, rfl, .primary, by rw [role_atom isAtom]; rfl, by decide⟩ (.atom isAtom) (by decide)

theorem property (name : String) (isObject : IsPhrase Precedence.member first left) :
    IsPhrase Precedence.member (first ++ [.mark ".", .word name]) (.synthetic (.propertyAccess left name)) := by
  obtain ⟨opens, isRead⟩ := isObject .leftHandSide (Nat.le_refl _)
  exact of_isRead (opens.append _) isRead.property (by decide)

theorem binary {operator : BinaryOperator} (notAssign : operator ≠ .assign)
    (isLeft : IsPhrase (Precedence.ofOperator operator) first left)
    (isRight : IsPhrase (Precedence.ofOperator operator + 1) second right) :
    IsPhrase (Precedence.ofOperator operator) (first ++ operator.token :: second)
      (.synthetic (.binaryExpression operator left right)) := by
  obtain ⟨operands, between⟩ := exists_operands? notAssign
  obtain ⟨opens, isRead⟩ := isLeft operator.phrase (by cases operator <;> decide)
  obtain ⟨-, isRead'⟩ := isRight operands (by cases operator <;> cases between <;> decide)
  exact of_isRead (opens.append _) (isRead.binary between isRead')
    (by cases operator <;> cases between <;> decide)

/-- No expression of a calculation binds like a conditional, so what is assigned to binds tighter. -/
theorem assign (isLeft : IsPhrase (Precedence.conditional + 1) first left)
    (isRight : IsPhrase Precedence.yield second right) :
    IsPhrase Precedence.assignment (first ++ .mark "=" :: second)
      (.synthetic (.binaryExpression .assign left right)) := by
  obtain ⟨opens, isRead⟩ := isLeft .logicalOr (by decide)
  obtain ⟨-, isRead'⟩ := isRight .assignment (by decide)
  have opens' : Opens .conditional first := opens.of_le (by decide)
  exact of_isRead ((opens.append _).of_le (by decide)) (isRead.assign isRead' opens') (by decide)

theorem unary {operator : UnaryOperator} (isOperand : IsPhrase Precedence.unary first left) :
    IsPhrase Precedence.unary (operator.token :: first) (.synthetic (.unaryExpression operator left)) :=
  of_isRead ⟨_, _, rfl, .unary, Role.opened?_of_unary? (role_unary _), by decide⟩
    (isOperand .unary (Nat.le_refl _)).2.unary (by decide)

theorem before {operator : UpdateOperator} (isOperand : IsPhrase Precedence.member first left) :
    IsPhrase Precedence.update (operator.token :: first) (.synthetic (.updateExpression operator true left)) :=
  of_isRead ⟨_, _, rfl, .update, by rw [role_update]; rfl, by decide⟩
    (isOperand .unary (by decide)).2.before (by decide)

theorem after {operator : UpdateOperator} (isOperand : IsPhrase Precedence.member first left) :
    IsPhrase Precedence.update (first ++ [operator.token])
      (.synthetic (.updateExpression operator false left)) := by
  obtain ⟨opens, isRead⟩ := isOperand .leftHandSide (Nat.le_refl _)
  exact of_isRead ((opens.append _).of_le (by decide)) (isRead.after opens) (by decide)

end IsPhrase

/-- The lexeme as a token, a numeral like a name. -/
def Lexeme.token : Lexeme → Token
  | word name => .word name
  | mark text => .mark text
  | numeral text => .word text

theorem Lexeme.token_lexeme (token : Token) : token.lexeme.token = token := by
  cases token <;> rfl

/-- The lexemes are read as the structure of the calculation. -/
def IsStructured (least : Nat) (node : Node) (lexemes : List Lexeme) : Prop :=
  IsPhrase least (lexemes.map Lexeme.token) node.spelled

theorem IsStructured.placed (isStructured : IsStructured (Precedence.ofKind node.kind) node node.lexemes)
    (least : Nat) : IsStructured least node (Lexeme.placed least (node, node.lexemes)) := by
  unfold Lexeme.placed
  split
  · have enclosed := IsPhrase.enclosed isStructured least
    rwa [IsStructured, List.map_cons, List.map_append]
  · next enough => exact fun kind admits => isStructured kind (Nat.le_trans admits (Nat.le_of_not_lt enough))

/-- The text of a number is no word of the language. -/
theorem numberLiteral_free {value : Float} (finite : value.isFinite = true) :
    numberLiteral value ∉ reserved := by
  intro isReserved
  have letters : ∀ word ∈ reserved, word.toList.head?.any isLetter = true := by decide
  obtain ⟨sign, digits, isText, isSign, ⟨c, cs, rfl, digit⟩, -⟩ := exists_digits finite
  have isHead := letters _ isReserved
  rw [isText] at isHead
  rcases isSign with rfl | rfl
  · have notStart := (ascii_of_digit digit).2.2
    simp [isLetter, notStart] at isHead
  · cases isHead

/-- No calculation binds like a conditional, so what stands on the left of an assignment binds more tightly. -/
theorem Calculation.placed_left (isCalculation : Calculation alphabet node) :
    Lexeme.placed (Precedence.assignment + 1) (node, node.lexemes) =
      Lexeme.placed (Precedence.conditional + 1) (node, node.lexemes) := by
  have other : Precedence.ofKind node.kind ≠ Precedence.conditional := by
    cases isCalculation with
    | identifier | number => exact (by decide : Precedence.primary ≠ Precedence.conditional)
    | property => exact (by decide : Precedence.member ≠ Precedence.conditional)
    | @binary _ operator _ _ _ _ =>
      show Precedence.ofOperator operator ≠ Precedence.conditional
      cases operator <;> decide
    | unary => exact (by decide : Precedence.unary ≠ Precedence.conditional)
    | update => exact (by decide : Precedence.update ≠ Precedence.conditional)
  have same : Precedence.ofKind node.kind < Precedence.assignment + 1 ↔
      Precedence.ofKind node.kind < Precedence.conditional + 1 := by
    have next : Precedence.assignment + 1 = Precedence.conditional := rfl
    omega
  unfold Lexeme.placed
  simp only [same]

theorem Calculation.isStructured (isCalculation : Calculation alphabet node) :
    IsStructured (Precedence.ofKind node.kind) node node.lexemes := by
  induction isCalculation with
  | identifier isWord free => exact .atom free
  | number finite => exact .atom (numberLiteral_free finite)
  | @property span object name isObject isWord ih =>
    have property := IsPhrase.property name (ih.placed Precedence.member)
    show IsPhrase Precedence.member
      ((Lexeme.placed Precedence.member (object, object.lexemes) ++
        [Lexeme.mark ".", Lexeme.word name]).map Lexeme.token)
      (.synthetic (.propertyAccess object.spelled name))
    rwa [List.map_append]
  | @binary span operator left right isLeft isRight ih ih' =>
    show IsPhrase (Precedence.ofOperator operator)
      ((Lexeme.placed operator.leastLeft (left, left.lexemes) ++
        operator.token.lexeme :: Lexeme.placed operator.leastRight (right, right.lexemes)).map Lexeme.token)
      (.synthetic (.binaryExpression operator left.spelled right.spelled))
    rw [List.map_append, List.map_cons, Lexeme.token_lexeme]
    by_cases isAssign : operator = .assign
    · subst isAssign
      have isTarget := ih.placed (Precedence.conditional + 1)
      rw [← isLeft.placed_left] at isTarget
      exact .assign isTarget (ih'.placed Precedence.yield)
    · have least : operator.leastLeft = Precedence.ofOperator operator ∧
          operator.leastRight = Precedence.ofOperator operator + 1 := by
        cases operator <;> first | exact ⟨rfl, rfl⟩ | exact absurd rfl isAssign
      rw [least.1, least.2]
      exact .binary isAssign (ih.placed _) (ih'.placed _)
  | @unary span operator operand isOperand ih =>
    show IsPhrase Precedence.unary
      ((operator.token.lexeme :: Lexeme.placed Precedence.unary (operand, operand.lexemes)).map Lexeme.token)
      (.synthetic (.unaryExpression operator operand.spelled))
    rw [List.map_cons, Lexeme.token_lexeme]
    exact .unary (ih.placed _)
  | @update span operator isPrefix operand isOperand ih =>
    cases isPrefix
    · show IsPhrase Precedence.update
        ((Lexeme.placed Precedence.member (operand, operand.lexemes) ++ [operator.token.lexeme]).map
          Lexeme.token)
        (.synthetic (.updateExpression operator false operand.spelled))
      rw [List.map_append, List.map_singleton, Lexeme.token_lexeme]
      exact .after (ih.placed _)
    · show IsPhrase Precedence.update
        ((operator.token.lexeme :: Lexeme.placed Precedence.member (operand, operand.lexemes)).map Lexeme.token)
        (.synthetic (.updateExpression operator true operand.spelled))
      rw [List.map_cons, Lexeme.token_lexeme]
      exact .before (ih.placed _)

/-- The lexemes of a calculation are those of one structure. -/
theorem Calculation.spelled_eq {other : Node} (isCalculation : Calculation alphabet node)
    (isOther : Calculation alphabet other) (same : other.lexemes = node.lexemes) :
    other.spelled = node.spelled := by
  have read := (isCalculation.isStructured .expression (Nat.zero_le _)).2 _ _ _ ends_nil.continues
  have read' := (isOther.isStructured .expression (Nat.zero_le _)).2 _ _ _ ends_nil.continues
  rw [same] at read'
  exact (read'.unique read).1

/-! ## The texts of calculations -/

theorem Calculation.splits_parts_iff (isCalculation : Calculation alphabet node) :
    Splits alphabet node.print.toList (node.lexemes.flatMap Lexeme.parts) ↔ AllApart node := by
  have split := isCalculation.isSplitAlone 0 [] [] alphabet.breaks_nil nofun
  rw [List.append_nil, List.append_nil] at split
  have text : node.print = node.textAt 0 := by
    unfold Node.print
    rw [if_pos isCalculation.isExpression]
    exact (shown_eq isCalculation.isExpression).trans (if_neg (Nat.not_lt_zero _))
  rw [text, split]
  exact ⟨And.left, fun allApart => ⟨allApart, fun _ => nofun, .done⟩⟩

theorem Calculation.splits_iff (isCalculation : Calculation alphabet node) :
    Splits alphabet node.print.toList node.lexemes ↔ AllApart node ∧ NoneNegative node := by
  rw [← isCalculation.unsigned_iff]
  constructor
  · intro splits
    have unsigned : Unsigned node.lexemes := by
      intro text mem isSigned
      obtain ⟨c, cs, isText, head⟩ := exists_head_of_numeral (splits.isValid_of_mem _ mem)
      rw [isText] at isSigned
      cases isSigned
      rcases head with digit | ⟨isPoint, -⟩
      · cases digit
      · cases isPoint
    rw [← unsigned.flatMap_parts, isCalculation.splits_parts_iff] at splits
    exact ⟨splits, unsigned⟩
  · rintro ⟨allApart, unsigned⟩
    rwa [← unsigned.flatMap_parts, isCalculation.splits_parts_iff]

theorem Splits.forall_iff {text : List Char} {own : List Lexeme} :
    (∀ lexemes, Splits alphabet text lexemes ↔ lexemes = own) ↔ Splits alphabet text own := by
  constructor
  · exact fun each => (each own).2 rfl
  · intro splits lexemes
    refine ⟨fun others => others.unique splits, ?_⟩
    rintro rfl
    exact splits

/-- The text of a calculation splits, by the rule of the longest lexeme, into one lexeme for each operator, literal
and name and the parentheses that were added, and into nothing else, exactly if its nodes are apart and no
literal is negative; and with each negative literal as a minus sign and a number, exactly if its nodes are apart.
Two calculations of the first sort with the same text have the same structure. -/
theorem Calculation.splits_print (isCalculation : Calculation alphabet node) :
    ((∀ lexemes, Splits alphabet node.print.toList lexemes ↔ lexemes = node.lexemes) ↔
        AllApart node ∧ NoneNegative node) ∧
      ((∀ lexemes, Splits alphabet node.print.toList lexemes ↔ lexemes = node.lexemes.flatMap Lexeme.parts) ↔
        AllApart node) ∧
      ∀ other, Calculation alphabet other → AllApart node ∧ NoneNegative node →
        AllApart other ∧ NoneNegative other → other.print = node.print → other.spelled = node.spelled := by
  refine ⟨Splits.forall_iff.trans isCalculation.splits_iff,
    Splits.forall_iff.trans isCalculation.splits_parts_iff, fun other isOther isClear isClear' same => ?_⟩
  have splits := isCalculation.splits_iff.2 isClear
  have splits' := isOther.splits_iff.2 isClear'
  rw [same] at splits'
  exact isCalculation.spelled_eq isOther (splits'.unique splits)

/-- The difference of a name and another one with a minus sign. -/
def differenceOfMinus : Node :=
  let minus : Node := .synthetic (.unaryExpression .negate (.synthetic (.identifier "y")))
  .synthetic (.binaryExpression .subtract (.synthetic (.identifier "x")) minus)

example : differenceOfMinus.print = "x - -y" := by rfl

theorem calculation_letters {name : String} (notEmpty : name.toList ≠ [])
    (letters : name.toList.all isLetter = true) (free : name ∉ reserved) :
    Calculation .ascii (.synthetic (.identifier name)) :=
  .identifier (Alphabet.isWord_of_letters notEmpty letters) free

theorem splits_print_differenceOfMinus : Calculation .ascii differenceOfMinus ∧
    (AllApart differenceOfMinus ∧ NoneNegative differenceOfMinus) ∧
      ((∀ lexemes, Splits .ascii differenceOfMinus.print.toList lexemes ↔ lexemes = differenceOfMinus.lexemes) ↔
        AllApart differenceOfMinus ∧ NoneNegative differenceOfMinus) := by
  have isCalculation : Calculation .ascii differenceOfMinus :=
    .binary (calculation_letters (by decide) rfl (by decide))
      (.unary (calculation_letters (by decide) rfl (by decide)))
  refine ⟨isCalculation, ⟨?_, ?_⟩, isCalculation.splits_print.1⟩
  · unfold AllApart
    decide +kernel
  · unfold NoneNegative
    decide +kernel

/-- A minus sign in front of a minus sign in front of a name. -/
def minusOfMinus : Node :=
  .synthetic (.unaryExpression .negate (.synthetic (.unaryExpression .negate (.synthetic (.identifier "x")))))

/-- A decrement of a name. -/
def decrement : Node := .synthetic (.updateExpression .decrement true (.synthetic (.identifier "x")))

/-- A minus sign in front of a minus sign is written like a decrement, and read as one. -/
theorem not_splits_minusOfMinus : Calculation .ascii minusOfMinus ∧ Calculation .ascii decrement ∧
    minusOfMinus.print = "--x" ∧ decrement.print = "--x" ∧ minusOfMinus.spelled ≠ decrement.spelled ∧
      ¬ ∀ lexemes, Splits .ascii minusOfMinus.print.toList lexemes ↔ lexemes = minusOfMinus.lexemes := by
  have isName : Calculation .ascii (.synthetic (.identifier "x")) :=
    calculation_letters (by decide) rfl (by decide)
  have isDecrement : Calculation .ascii decrement := .update isName
  refine ⟨.unary (.unary isName), isDecrement, rfl, rfl, nofun, fun each => ?_⟩
  have splits := (each minusOfMinus.lexemes).2 rfl
  have splits' := isDecrement.splits_iff.2
    ⟨by unfold AllApart; decide +kernel, by unfold NoneNegative; decide +kernel⟩
  rw [show minusOfMinus.print = "--x" from rfl] at splits
  rw [show decrement.print = "--x" from rfl] at splits'
  exact absurd (splits.unique splits') (by decide +kernel)

end Script

end Resumable
