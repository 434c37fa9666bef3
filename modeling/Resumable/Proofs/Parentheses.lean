import Resumable.Proofs.Unambiguity
import Resumable.Syntax.Print

/-!
# Printed expressions are read as they were

`Script.Covered` are the expressions of names, words, accesses, calls and operators.  The text of such an
expression has the tokens of a phrase that stands for it, in every place: as the precedences of the printer
are in the order of the kinds of phrases (`Phrase.least`), what is printed for a place that asks for a
precedence is a phrase of each kind which that place admits (`IsRendered.renders`).  As tokens stand for at
most one tree, the text is read as the tree it was printed from, up to the source ranges that a text does not
have (`reads_print_iff`).
-/

namespace Resumable

/-! ## Trees without source ranges -/

namespace Node

/-- The tree without the source ranges of its nodes. -/
def bare : Node → Node := para fun _ parts => .synthetic (parts.map Prod.snd)

theorem bare_eq (node : Node) : node.bare = .synthetic (node.kind.map bare) := by
  unfold bare
  rw [para_eq, Kind.map_map]
  rfl

theorem isTarget_bare (node : Node) : node.bare.isTarget = node.isTarget := by
  rw [bare_eq]
  unfold isTarget
  cases node with
  | mk span kind => cases kind <;> rfl

theorem textAt_eq (node : Node) (level : Nat) :
    node.textAt level = (node.kind.map fun child => (child, child.textAt)).textOf level := by
  unfold textAt
  rw [para_eq]

end Node

namespace Script

/-! ## Operators are tokens -/

section Valid

variable {alphabet : Alphabet}

theorem isValid_binary (operator : BinaryOperator) : operator.token.IsValid alphabet := by
  cases operator with
  | isIn => exact Alphabet.isWord_of_letters (by decide) rfl
  | instanceOf => exact Alphabet.isWord_of_letters (by decide) rfl
  | _ => exact List.mem_of_elem_eq_true rfl

theorem isValid_unary (operator : UnaryOperator) : operator.token.IsValid alphabet := by
  cases operator with
  | not => exact List.mem_of_elem_eq_true rfl
  | negate => exact List.mem_of_elem_eq_true rfl
  | _ => exact Alphabet.isWord_of_letters (by decide) rfl

theorem text_unary (operator : UnaryOperator) : operator.token.text = operator.text := by
  cases operator <;> rfl

theorem text_binary (operator : BinaryOperator) : operator.token.text = operator.text := by
  cases operator <;> rfl

end Valid

/-! ## Precedences and kinds of phrases -/

/-- The least precedence of the expressions that are phrases of the kind as they are printed. -/
def Phrase.least : Phrase → Nat
  | expression => 0
  | assignment => Precedence.yield
  | conditional => Precedence.conditional
  | logicalOr => 5
  | logicalAnd => 6
  | equality => 7
  | relational => 10
  | additive => 11
  | multiplicative => 13
  | unary => Precedence.unary
  | update => Precedence.update
  | leftHandSide => Precedence.member
  | primary => 17

theorem Phrase.least_le {inner outer : Phrase} (le : outer.rank ≤ inner.rank) :
    outer.least ≤ inner.least := by
  cases outer <;> cases inner <;> first | decide | exact absurd le (by decide)

/-- The tightest phrase that a precedence admits is the last before those it does not admit. -/
theorem Phrase.rank_le_of_least_le {kind inner : Phrase} {precedence : Nat}
    (below : ∀ next ∈ inner.next?, precedence < next.least) (admits : kind.least ≤ precedence) :
    kind.rank ≤ inner.rank := by
  refine Nat.le_of_not_lt fun tighter => ?_
  obtain ⟨next, isNext⟩ := exists_next? tighter
  have rank := rank_of_next? isNext
  have beyond := below next isNext
  have least : next.least ≤ kind.least := least_le (by omega)
  omega

/-! ## Texts of phrases -/

/-- The text begins, and not with an equals sign. -/
def Leads (text : String) : Prop := ∃ c cs, text.toList = c :: cs ∧ c ≠ '='

theorem Leads.append {text : String} (leads : Leads text) (behind : String) : Leads (text ++ behind) := by
  obtain ⟨c, cs, isText, other⟩ := leads
  exact ⟨c, cs ++ behind.toList, by rw [String.toList_append, isText, List.cons_append], other⟩

theorem leads_of_literal {literal : String} {c : Char} {cs : List Char} (isLiteral : literal.toList = c :: cs)
    (other : c ≠ '=') : Leads literal := ⟨c, cs, isLiteral, other⟩

theorem leads_of_isWord {alphabet : Alphabet} {name : String} (isWord : alphabet.IsWord name) : Leads name :=
  isWord.exists_head_ne (by decide)

/-- The text has the tokens of a phrase that stands for the tree, of each kind that the precedence admits. -/
def Renders (alphabet : Alphabet) (precedence : Nat) (tree : Node) (text : String) : Prop :=
  Leads text ∧ ∃ tokens, Lexes alphabet tokens text.toList ∧
    ∀ kind : Phrase, kind.least ≤ precedence → Derives kind tokens tree

namespace Renders

variable {alphabet : Alphabet} {precedence : Nat} {tree : Node} {text : String}

theorem of_derives {inner : Phrase} {tokens : List Token} (leads : Leads text)
    (lexes : Lexes alphabet tokens text.toList) (derived : Derives inner tokens tree)
    (below : ∀ next ∈ inner.next?, precedence < next.least) : Renders alphabet precedence tree text :=
  ⟨leads, tokens, lexes, fun _ admits => derived.lift (Phrase.rank_le_of_least_le below admits)⟩

theorem of_le {least : Nat} (le : least ≤ precedence) (renders : Renders alphabet precedence tree text) :
    Renders alphabet least tree text := by
  obtain ⟨leads, tokens, lexes, derives⟩ := renders
  exact ⟨leads, tokens, lexes, fun kind admits => derives kind (Nat.le_trans admits le)⟩

theorem enclosed (renders : Renders alphabet precedence tree text) (least : Nat) :
    Renders alphabet least tree ("(" ++ text ++ ")") := by
  obtain ⟨-, tokens, lexes, derives⟩ := renders
  have derived := Derives.enclosed (derives .expression (Nat.zero_le _))
  have derives' (kind : Phrase) := derived.lift (Phrase.rank_le_primary kind)
  refine ⟨((leads_of_literal rfl (by decide)).append _).append _, _, ?_, fun kind _ => derives' kind⟩
  simpa using lexes.enclosed "(" ")" (by decide) (by decide) (by decide) (by decide)

/-! ### One text for each form -/

theorem atom (word : String) {kind : Kind Node} (isWord : alphabet.IsWord word)
    (isAtom : atom? word = some kind) : Renders alphabet Precedence.primary (.synthetic kind) word := by
  refine of_derives (leads_of_isWord isWord) ?_ (.atom isAtom) (by decide)
  simpa using Lexes.nil.word isWord Alphabet.breaks_nil

variable {left right other : Node} {first second third : String}

theorem binary {operator : BinaryOperator} {operands : Phrase}
    (between : operator.phrase.operands? = some operands)
    (isLeft : Renders alphabet (Precedence.ofOperator operator) left first)
    (isRight : Renders alphabet (Precedence.ofOperator operator + 1) right second) :
    Renders alphabet (Precedence.ofOperator operator)
      (.synthetic (.binaryExpression operator left right))
      (first ++ (if operator = .comma then ", " else " " ++ operator.text ++ " ") ++ second) := by
  obtain ⟨leads, tokens, lexes, derives⟩ := isLeft
  obtain ⟨-, others, lexes', derives'⟩ := isRight
  have admitsLeft : operator.phrase.least ≤ Precedence.ofOperator operator := by cases operator <;> decide
  have admitsRight : operands.least ≤ Precedence.ofOperator operator + 1 := by
    cases operator <;> cases between <;> decide
  have derived := Derives.binary between (derives _ admitsLeft) (derives' _ admitsRight)
  refine of_derives ((leads.append _).append _) ?_ derived ?_
  · by_cases isComma : operator = .comma
    · subst isComma
      show Lexes alphabet (tokens ++ .mark "," :: others) _
      simpa using lexes.comma lexes'
    · rw [if_neg isComma]
      simpa [text_binary] using lexes.between _ (isValid_binary operator) lexes'
  · cases operator <;> cases between <;> decide

theorem assign (isTarget : left.isTarget = true) (isLeft : Renders alphabet Precedence.member left first)
    (isRight : Renders alphabet Precedence.yield right second) :
    Renders alphabet Precedence.assignment (.synthetic (.binaryExpression .assign left right))
      (first ++ " = " ++ second) := by
  obtain ⟨leads, tokens, lexes, derives⟩ := isLeft
  obtain ⟨-, others, lexes', derives'⟩ := isRight
  have derived := Derives.assign (derives _ (Nat.le_refl _)) isTarget (derives' .assignment (Nat.le_refl _))
  refine of_derives ((leads.append _).append _) ?_ derived (by decide)
  simpa [Token.text] using lexes.between (.mark "=") (isValid_binary .assign) lexes'

theorem conditional (isCondition : Renders alphabet (Precedence.conditional + 1) left first)
    (isWhenTrue : Renders alphabet Precedence.assignment right second)
    (isWhenFalse : Renders alphabet Precedence.assignment other third) :
    Renders alphabet Precedence.conditional (.synthetic (.conditionalExpression left right other))
      (first ++ " ? " ++ second ++ " : " ++ third) := by
  obtain ⟨leads, tokens, lexes, derives⟩ := isCondition
  obtain ⟨-, tokens', lexes', derives'⟩ := isWhenTrue
  obtain ⟨-, tokens'', lexes'', derives''⟩ := isWhenFalse
  have derived := Derives.conditional (derives .logicalOr (by decide)) (derives' .assignment (by decide))
    (derives'' .assignment (by decide))
  refine of_derives ((((leads.append _).append _).append _).append _) ?_ derived (by decide)
  have isValid (mark : String) (isMark : mark ∈ marks) : (Token.mark mark).IsValid alphabet := isMark
  have colon := lexes'.between _ (isValid ":" (by decide)) lexes''
  simpa [Token.text] using lexes.between _ (isValid "?" (by decide)) colon

theorem yield : Renders alphabet Precedence.yield (.synthetic (.yieldExpression none)) "yield" := by
  have isWord : alphabet.IsWord "yield" := Alphabet.isWord_of_letters (by decide) rfl
  refine of_derives (leads_of_isWord isWord) ?_ .yield (by decide)
  simpa using Lexes.nil.word isWord Alphabet.breaks_nil

theorem yieldOf (isOperand : Renders alphabet Precedence.assignment left first) :
    Renders alphabet Precedence.yield (.synthetic (.yieldExpression (some left)))
      ("yield" ++ (" " ++ first)) := by
  obtain ⟨-, tokens, lexes, derives⟩ := isOperand
  have isWord : alphabet.IsWord "yield" := Alphabet.isWord_of_letters (by decide) rfl
  have derived := Derives.yieldOf (derives .assignment (by decide))
  refine of_derives ((leads_of_isWord isWord).append _) ?_ derived (by decide)
  simpa [Token.text] using lexes.token (.word "yield") isWord

theorem unary {operator : UnaryOperator} (notMinus : operator ≠ .negate)
    (isOperand : Renders alphabet Precedence.unary left first) :
    Renders alphabet Precedence.unary (.synthetic (.unaryExpression operator left))
      (operator.text ++ (if operator.isWord then " " else "") ++ first) := by
  obtain ⟨⟨c, cs, isText, other⟩, tokens, lexes, derives⟩ := isOperand
  have derived := @Derives.unary operator _ _ (derives .unary (Nat.le_refl _))
  refine of_derives (Leads.append (Leads.append ?_ _) _) ?_ derived (by decide)
  · cases operator <;> exact leads_of_literal rfl (by decide)
  · by_cases isWord : operator.isWord = true
    · rw [if_pos isWord]
      simpa [text_unary] using lexes.token _ (isValid_unary operator)
    · obtain rfl : operator = .not := by cases operator <;> trivial
      show Lexes alphabet (.mark "!" :: tokens) _
      have alone : c ∉ continuations "!" := by
        rw [show continuations "!" = ['=', '='] by decide]
        simpa using other
      rw [isText] at lexes
      simpa [UnaryOperator.text, UnaryOperator.isWord, isText] using lexes.mark "!" (by decide) alone

theorem before {operator : UpdateOperator} (isTarget : left.isTarget = true)
    (isOperand : Renders alphabet Precedence.member left first) :
    Renders alphabet Precedence.update (.synthetic (.updateExpression operator true left))
      (operator.text ++ first) := by
  obtain ⟨-, tokens, lexes, derives⟩ := isOperand
  have derived := @Derives.before operator _ _ (derives .unary (by decide)) isTarget
  refine of_derives (Leads.append ?_ _) ?_ derived (by decide)
  · cases operator <;> exact leads_of_literal rfl (by decide)
  · rw [String.toList_append]
    cases operator <;> exact lexes.mark_of_nil _ (by decide) (by decide)

theorem after {operator : UpdateOperator} (isTarget : left.isTarget = true)
    (isOperand : Renders alphabet Precedence.member left first) :
    Renders alphabet Precedence.update (.synthetic (.updateExpression operator false left))
      (first ++ operator.text) := by
  obtain ⟨leads, tokens, lexes, derives⟩ := isOperand
  have derived := @Derives.after operator _ _ (derives .leftHandSide (Nat.le_refl _)) isTarget
  refine of_derives (leads.append _) ?_ derived (by decide)
  rw [String.toList_append]
  cases operator <;>
    exact lexes.append (Alphabet.breaks_cons (by decide)) (.mark_of_nil _ (by decide) (by decide) .nil)

theorem property {name : String} (isWord : alphabet.IsWord name)
    (isObject : Renders alphabet Precedence.member left first) :
    Renders alphabet Precedence.member (.synthetic (.propertyAccess left name)) (first ++ "." ++ name) := by
  obtain ⟨leads, tokens, lexes, derives⟩ := isObject
  have derived := @Derives.property _ _ name (derives .leftHandSide (Nat.le_refl _))
  refine of_derives ((leads.append _).append _) ?_ derived (by decide)
  obtain ⟨c, cs, isName, other⟩ := isWord.exists_head_ne (c := '.') (by decide)
  have isLexed := Lexes.nil.word isWord Alphabet.breaks_nil
  rw [List.append_nil, isName] at isLexed
  have alone : c ∉ continuations "." := by
    rw [show continuations "." = ['.'] by decide]
    simpa using other
  have dotted := isLexed.mark "." (by decide) alone
  simpa [isName] using lexes.append (alphabet.breaks_mark (by decide) _) dotted

theorem element (isObject : Renders alphabet Precedence.member left first)
    (isIndex : Renders alphabet 0 right second) :
    Renders alphabet Precedence.member (.synthetic (.elementAccess left right))
      (first ++ "[" ++ second ++ "]") := by
  obtain ⟨leads, tokens, lexes, derives⟩ := isObject
  obtain ⟨-, others, lexes', derives'⟩ := isIndex
  have derived := Derives.element (derives .leftHandSide (Nat.le_refl _)) (derives' .expression (Nat.le_refl _))
  refine of_derives (((leads.append _).append _).append _) ?_ derived (by decide)
  have bracketed := lexes'.enclosed "[" "]" (by decide) (by decide) (by decide) (by decide)
  simpa using lexes.append (alphabet.breaks_mark (by decide) _) bracketed

/-- Expressions with commas between them are items. -/
theorem exists_listed {nodes : List Node} {text : Node → String}
    (each : ∀ node ∈ nodes, Renders alphabet (Precedence.comma + 1) node.bare (text node)) :
    ∃ items, items.map Prod.snd = nodes.map Node.bare ∧
      (∀ item ∈ items, Derives .assignment item.1 item.2) ∧
      Lexes alphabet (listed items) (String.intercalate ", " (nodes.map text)).toList := by
  rw [String.toList_intercalate, List.map_map]
  induction nodes with
  | nil => exact ⟨[], rfl, List.forall_mem_nil _, .nil⟩
  | cons node rest ih =>
    obtain ⟨⟨-, tokens, lexes, derives⟩, others⟩ := List.forall_mem_cons.1 each
    obtain ⟨items, trees, derived, lexes'⟩ := ih others
    refine ⟨(tokens, node.bare) :: items, by rw [List.map_cons, List.map_cons, trees],
      List.forall_mem_cons.2 ⟨derives .assignment (by decide), derived⟩, ?_⟩
    cases rest with
    | nil =>
      cases items with
      | nil => simpa [listed] using lexes
      | cons => cases trees
    | cons next rest =>
      cases items with
      | nil => cases trees
      | cons item items =>
        rw [List.map_cons, List.map_cons, List.intercalate_cons_cons, listed]
        · simpa using lexes.comma lexes'
        · exact List.cons_ne_nil _ _

theorem array {items : List (List Token × Node)} (each : ∀ item ∈ items, Derives .assignment item.1 item.2)
    (lexes : Lexes alphabet (listed items) first.toList) :
    Renders alphabet Precedence.primary (.synthetic (.arrayLiteral (items.map Prod.snd)))
      ("[" ++ first ++ "]") := by
  refine of_derives (((leads_of_literal rfl (by decide)).append _).append _) ?_ (.array each) (by decide)
  simpa using lexes.enclosed "[" "]" (by decide) (by decide) (by decide) (by decide)

theorem call {items : List (List Token × Node)} (isCallee : Renders alphabet Precedence.member left first)
    (each : ∀ item ∈ items, Derives .assignment item.1 item.2)
    (listed : Lexes alphabet (listed items) second.toList) :
    Renders alphabet Precedence.member (.synthetic (.callExpression left (items.map Prod.snd)))
      (first ++ "(" ++ second ++ ")") := by
  obtain ⟨leads, tokens, lexes, derives⟩ := isCallee
  have derived := Derives.call (derives .leftHandSide (Nat.le_refl _)) each
  refine of_derives (((leads.append _).append _).append _) ?_ derived (by decide)
  have bracketed := listed.enclosed "(" ")" (by decide) (by decide) (by decide) (by decide)
  simpa using lexes.append (alphabet.breaks_mark (by decide) _) bracketed

end Renders

/-! ## Expressions -/

/-- The expressions of names, words, lists, accesses, calls and operators. -/
inductive Covered (alphabet : Alphabet) : Node → Prop
  | identifier {span : Span} {name : String} (isWord : alphabet.IsWord name) (free : name ∉ reserved) :
      Covered alphabet ⟨span, .identifier name⟩
  | this {span : Span} : Covered alphabet ⟨span, .thisExpression⟩
  | null {span : Span} : Covered alphabet ⟨span, .nullLiteral⟩
  | boolean {span : Span} (value : Bool) : Covered alphabet ⟨span, .booleanLiteral value⟩
  | array {span : Span} {elements : List Node} (each : ∀ element ∈ elements, Covered alphabet element) :
      Covered alphabet ⟨span, .arrayLiteral elements⟩
  | call {span : Span} {callee : Node} {arguments : List Node} (isCallee : Covered alphabet callee)
      (each : ∀ argument ∈ arguments, Covered alphabet argument) :
      Covered alphabet ⟨span, .callExpression callee arguments⟩
  | property {span : Span} {object : Node} {name : String} (isObject : Covered alphabet object)
      (isWord : alphabet.IsWord name) : Covered alphabet ⟨span, .propertyAccess object name⟩
  | element {span : Span} {object index : Node} (isObject : Covered alphabet object)
      (isIndex : Covered alphabet index) : Covered alphabet ⟨span, .elementAccess object index⟩
  | binary {span : Span} {operator : BinaryOperator} {left right : Node} (notAssign : operator ≠ .assign)
      (isLeft : Covered alphabet left) (isRight : Covered alphabet right) :
      Covered alphabet ⟨span, .binaryExpression operator left right⟩
  | assign {span : Span} {target value : Node} (isTarget : target.isTarget = true)
      (isLeft : Covered alphabet target) (isRight : Covered alphabet value) :
      Covered alphabet ⟨span, .binaryExpression .assign target value⟩
  | conditional {span : Span} {condition whenTrue whenFalse : Node} (isCondition : Covered alphabet condition)
      (isWhenTrue : Covered alphabet whenTrue) (isWhenFalse : Covered alphabet whenFalse) :
      Covered alphabet ⟨span, .conditionalExpression condition whenTrue whenFalse⟩
  | yield {span : Span} : Covered alphabet ⟨span, .yieldExpression none⟩
  | yieldOf {span : Span} {operand : Node} (isOperand : Covered alphabet operand) :
      Covered alphabet ⟨span, .yieldExpression (some operand)⟩
  | unary {span : Span} {operator : UnaryOperator} {operand : Node} (notMinus : operator ≠ .negate)
      (isOperand : Covered alphabet operand) : Covered alphabet ⟨span, .unaryExpression operator operand⟩
  | update {span : Span} {operator : UpdateOperator} {isPrefix : Bool} {operand : Node}
      (isTarget : operand.isTarget = true) (isOperand : Covered alphabet operand) :
      Covered alphabet ⟨span, .updateExpression operator isPrefix operand⟩

section Printing

variable {alphabet : Alphabet} {node : Node} {least level : Nat}

theorem Covered.isExpression (covered : Covered alphabet node) : node.form.isExpression = true := by
  cases covered <;> rfl

/-- The text of an expression by itself has the tokens of a phrase that stands for it. -/
def IsRendered (alphabet : Alphabet) (level : Nat) (node : Node) : Prop :=
  Renders alphabet (Precedence.ofKind node.kind) (.synthetic (node.kind.map Node.bare))
    ((node.kind.map fun child => (child, child.textAt)).textOf level)

/-- What a place shows of an expression. -/
def shown (least level : Nat) (node : Node) : String := Part.expression least level (node, node.textAt)

theorem shown_eq (isExpression : node.form.isExpression = true) :
    shown least level node =
      if Precedence.ofKind node.kind < least then "(" ++ node.textAt level ++ ")" else node.textAt level := by
  unfold shown Part.expression
  simp only [isExpression, Bool.true_or, if_true]

/-- A place shows an expression as a phrase of each kind that the place admits. -/
theorem IsRendered.renders (isRendered : IsRendered alphabet level node)
    (isExpression : node.form.isExpression = true) (least : Nat) :
    Renders alphabet least node.bare (shown least level node) := by
  unfold IsRendered at isRendered
  rw [← Node.bare_eq, ← Node.textAt_eq] at isRendered
  rw [shown_eq isExpression]
  split
  · exact isRendered.enclosed least
  · next enough => exact isRendered.of_le (Nat.le_of_not_lt enough)

theorem member_le_of_isTarget (isTarget : node.isTarget = true) :
    Precedence.member ≤ Precedence.ofKind node.kind := by
  unfold Node.isTarget at isTarget
  split at isTarget
  · next isIdentifier =>
    rw [isIdentifier]
    exact Nat.le_of_lt (by decide : Precedence.member < Precedence.primary)
  · next isAccess => rw [isAccess]; exact Nat.le_refl _
  · next isAccess => rw [isAccess]; exact Nat.le_refl _
  · cases isTarget

/-- A target is shown without parentheses on the left of an assignment. -/
theorem IsRendered.renders_target (isRendered : IsRendered alphabet level node)
    (isExpression : node.form.isExpression = true) (isTarget : node.isTarget = true) :
    Renders alphabet Precedence.member node.bare (shown (Precedence.assignment + 1) level node) := by
  have tight := member_le_of_isTarget isTarget
  have isShown := isRendered.renders isExpression Precedence.member
  rw [shown_eq isExpression, if_neg (Nat.not_lt.2 tight)] at isShown
  rw [shown_eq isExpression, if_neg (Nat.not_lt.2 (Nat.le_trans (by decide) tight))]
  exact isShown

theorem textOf_binary {operator : BinaryOperator} (notAssign : operator ≠ .assign) (left right : Node) :
    (Kind.binaryExpression operator (left, left.textAt) (right, right.textAt)).textOf level =
      shown (Precedence.ofOperator operator) level left ++
        (if operator = .comma then ", " else " " ++ operator.text ++ " ") ++
          shown (Precedence.ofOperator operator + 1) level right := by
  cases operator with
  | assign => exact absurd rfl notAssign
  | _ => rfl

theorem list_eq (nodes : List Node) : Part.list level (nodes.map fun child => (child, child.textAt)) =
    String.intercalate ", " (nodes.map (shown (Precedence.comma + 1) level)) := by
  unfold Part.list
  rw [List.map_map]
  rfl

theorem exists_operands? {operator : BinaryOperator} (notAssign : operator ≠ .assign) :
    ∃ operands, operator.phrase.operands? = some operands := by
  cases operator with
  | assign => exact absurd rfl notAssign
  | _ => exact ⟨_, rfl⟩

/-- Every form is put together from what its places show of the parts. -/
theorem Covered.isRendered (covered : Covered alphabet node) (level : Nat) :
    IsRendered alphabet level node := by
  -- The induction is about expressions by themselves: what a place makes of one, whatever precedence the
  -- place asks for, follows from that by `IsRendered.renders`.
  induction covered with
  | identifier isWord free => exact .atom _ isWord (atom?_identifier free)
  | this => exact .atom "this" (Alphabet.isWord_of_letters (by decide) rfl) rfl
  | null => exact .atom "null" (Alphabet.isWord_of_letters (by decide) rfl) rfl
  | boolean value =>
    cases value
    · exact .atom "false" (Alphabet.isWord_of_letters (by decide) rfl) rfl
    · exact .atom "true" (Alphabet.isWord_of_letters (by decide) rfl) rfl
  | array each ih =>
    obtain ⟨items, trees, derived, lexes⟩ :=
      Renders.exists_listed fun element mem => (ih element mem).renders (each element mem).isExpression _
    have array := Renders.array derived lexes
    rwa [trees, ← list_eq] at array
  | call isCallee each ih ih' =>
    obtain ⟨items, trees, derived, lexes⟩ :=
      Renders.exists_listed fun argument mem => (ih' argument mem).renders (each argument mem).isExpression _
    have call := (ih.renders isCallee.isExpression _).call derived lexes
    rwa [trees, ← list_eq] at call
  | property isObject isWord ih => exact (ih.renders isObject.isExpression _).property isWord
  | element isObject isIndex ih ih' =>
    exact (ih.renders isObject.isExpression _).element (ih'.renders isIndex.isExpression _)
  | binary notAssign isLeft isRight ih ih' =>
    obtain ⟨operands, between⟩ := exists_operands? notAssign
    have binary := (ih.renders isLeft.isExpression _).binary between (ih'.renders isRight.isExpression _)
    rwa [← textOf_binary notAssign] at binary
  | assign isTarget isLeft isRight ih ih' =>
    exact (ih.renders_target isLeft.isExpression isTarget).assign ((Node.isTarget_bare _).trans isTarget)
      (ih'.renders isRight.isExpression _)
  | conditional isCondition isWhenTrue isWhenFalse ih ih' ih'' =>
    exact (ih.renders isCondition.isExpression _).conditional (ih'.renders isWhenTrue.isExpression _)
      (ih''.renders isWhenFalse.isExpression _)
  | yield => exact .yield
  | yieldOf isOperand ih => exact (ih.renders isOperand.isExpression _).yieldOf
  | unary notMinus isOperand ih => exact (ih.renders isOperand.isExpression _).unary notMinus
  | @update _ _ isPrefix _ isTarget isOperand ih =>
    cases isPrefix
    · exact (ih.renders isOperand.isExpression _).after ((Node.isTarget_bare _).trans isTarget)
    · exact (ih.renders isOperand.isExpression _).before ((Node.isTarget_bare _).trans isTarget)

end Printing

/-! ## Reading what is printed -/

section Reading

variable {alphabet : Alphabet} {node : Node}

/-- A text is read as one tree at most. -/
theorem Reads.unique {text : String} {tree tree' : Node} (reads : Reads alphabet text tree)
    (reads' : Reads alphabet text tree') : tree = tree' := by
  obtain ⟨tokens, scans, derives⟩ := reads
  obtain ⟨tokens', scans', derives'⟩ := reads'
  obtain rfl := scans.unique scans'
  exact derives.unique derives'

/-- The text of an expression is read as the expression. -/
theorem Covered.reads (covered : Covered alphabet node) : Reads alphabet node.print node.bare := by
  obtain ⟨-, tokens, lexes, derives⟩ := (covered.isRendered 0).renders covered.isExpression 0
  refine ⟨tokens, ?_, derives .expression (Nat.le_refl _)⟩
  have scans := lexes [] [] alphabet.breaks_nil .done
  rw [List.append_nil, List.append_nil] at scans
  unfold Node.print
  rwa [if_pos covered.isExpression]

/-- The text of an expression stands for the expression and nothing else, up to source ranges, and no other
expression has the same text. -/
theorem reads_print_iff (covered : Covered alphabet node) :
    (∀ tree, Reads alphabet node.print tree ↔ tree = node.bare) ∧
      ∀ other, Covered alphabet other → other.print = node.print → other.bare = node.bare := by
  refine ⟨fun tree => ⟨fun reads => reads.unique covered.reads, ?_⟩, fun other isOther same => ?_⟩
  · rintro rfl
    exact covered.reads
  · have reads := isOther.reads
    rw [same] at reads
    exact reads.unique covered.reads

/-- An assignment of a conditional with a `yield` in its condition and another one in a branch. -/
def guardedYields : Node :=
  let name (name : String) : Node := .synthetic (.identifier name)
  let given : Node := .synthetic (.yieldExpression (some (name "y")))
  let condition : Node := .synthetic (.binaryExpression .comma given (name "z"))
  let bare : Node := .synthetic (.yieldExpression none)
  let value : Node := .synthetic (.conditionalExpression condition (name "u") bare)
  .synthetic (.binaryExpression .assign (.synthetic (.propertyAccess (name "x") "in")) value)

example : guardedYields.print = "x.in = (yield y, z) ? u : (yield)" := by rfl

theorem reads_print_guardedYields : Covered .ascii guardedYields ∧
    (∀ tree, Reads .ascii guardedYields.print tree ↔ tree = guardedYields.bare) ∧
      ∀ other, Covered .ascii other → other.print = guardedYields.print →
        other.bare = guardedYields.bare := by
  have isName (name : String) (notEmpty : name.toList ≠ []) (letters : name.toList.all isLetter = true)
      (free : name ∉ reserved) : Covered .ascii (.synthetic (.identifier name)) :=
    .identifier (Alphabet.isWord_of_letters notEmpty letters) free
  have isIn : Alphabet.ascii.IsWord "in" := Alphabet.isWord_of_letters (by decide) rfl
  have covered : Covered .ascii guardedYields := by
    refine .assign rfl (.property (isName "x" (by decide) rfl (by decide)) isIn) (.conditional ?_ ?_ .yield)
    · refine .binary nofun (.yieldOf ?_) (isName "z" (by decide) rfl (by decide))
      exact isName "y" (by decide) rfl (by decide)
    · exact isName "u" (by decide) rfl (by decide)
  exact ⟨covered, reads_print_iff covered⟩

end Reading

end Script

end Resumable
