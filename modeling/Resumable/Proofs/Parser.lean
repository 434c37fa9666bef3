import Resumable.Proofs.Grammar

/-!
# A parser for expressions

`Script.Parses` reads phrases from left to right and decides by the next token alone which way to go on.
What a token does is its `Role`: with some tokens phrases of a kind begin (`Opens`), in front of some they
end (`Ends`), and where a phrase may go on or end it is one token that tells.  So the parser has at most one
result (`Parses.unique`).  It does not check what is assigned to or counted.
-/

namespace Resumable.Script

/-! ## Tokens by what they do -/

/-- What a token does in an expression. The minus sign is the operator between two operands here. -/
inductive Role where
  | atom
  | operator (operator : BinaryOperator)
  | unary (operator : UnaryOperator)
  | update (operator : UpdateOperator)
  | yield
  | question
  | colon
  | dot
  | openParenthesis
  | closeParenthesis
  | openBracket
  | closeBracket
  | other
  deriving DecidableEq

/-- The marks that do something in an expression. -/
def markRoles : List (String × Role) :=
  [("(", .openParenthesis), (")", .closeParenthesis), ("[", .openBracket), ("]", .closeBracket),
    ("?", .question), (":", .colon), (".", .dot), ("!", .unary .not), ("++", .update .increment),
    ("--", .update .decrement)] ++
  BinaryOperator.all.map fun operator => (operator.text, .operator operator)

/-- The words that do something in an expression without being a part of it by themselves. -/
def wordRoles : List (String × Role) :=
  [("yield", .yield), ("typeof", .unary .typeOf), ("void", .unary .void), ("delete", .unary .delete),
    ("in", .operator .isIn), ("instanceof", .operator .instanceOf)]

/-- What a token does. -/
def Token.role : Token → Role
  | .mark text => (markRoles.lookup text).getD .other
  | .word name => if (atom? name).isSome then .atom else (wordRoles.lookup name).getD .other

theorem role_binary (operator : BinaryOperator) : operator.token.role = .operator operator := by
  cases operator <;> rfl

theorem role_update (operator : UpdateOperator) : operator.token.role = .update operator := by
  cases operator <;> rfl

theorem role_atom {word : String} {kind : Kind Node} (isAtom : atom? word = some kind) :
    (Token.word word).role = .atom := by
  show (if (atom? word).isSome = true then Role.atom else _) = _
  rw [isAtom]
  rfl

namespace Role

/-- The operator that a token is in front of an operand. -/
def unary? : Role → Option UnaryOperator
  | unary op => some op
  | operator .subtract => some .negate
  | _ => none

/-- The phrases that begin with a token, from the tightest kind. -/
def opened? : Role → Option Phrase
  | yield => some .assignment
  | unary _ | operator .subtract => some .unary
  | update _ => some .update
  | atom | openParenthesis | openBracket => some .primary
  | _ => none

/-- The phrases that go on with a token behind one of their parts. An equals sign is read where a question
mark is, behind what may be a condition or a target. -/
def level? : Role → Option Phrase
  | operator .assign => some .conditional
  | operator op => some op.phrase
  | question => some .conditional
  | update _ => some .update
  | dot | openParenthesis | openBracket => some .leftHandSide
  | _ => none

/-- A phrase of the kind can begin with the token. -/
def opens (kind : Phrase) (role : Role) : Prop := ∃ opened ∈ role.opened?, kind.rank ≤ opened.rank

/-- A phrase of the kind ends where the token follows. -/
def ends (kind : Phrase) (role : Role) : Prop :=
  role ∈ [closeParenthesis, closeBracket, colon] ∨ ∃ level ∈ role.level?, level.rank < kind.rank

variable {kind inner outer : Phrase} {role : Role}

theorem opens_of_le (le : outer.rank ≤ inner.rank) (opens : role.opens inner) : role.opens outer := by
  obtain ⟨opened, isOpened, atLeast⟩ := opens
  exact ⟨opened, isOpened, Nat.le_trans le atLeast⟩

theorem ends_of_le (le : inner.rank ≤ outer.rank) (ends : role.ends inner) : role.ends outer := by
  refine ends.imp_right ?_
  rintro ⟨level, isLevel, below⟩
  exact ⟨level, isLevel, Nat.lt_of_lt_of_le below le⟩

theorem level?_operator {operator : BinaryOperator} {operands : Phrase}
    (between : operator.phrase.operands? = some operands) :
    (Role.operator operator).level? = some operator.phrase := by
  cases operator with
  | assign => cases between
  | _ => rfl

/-- No token goes on with an assignment or behind the operand of a unary operator. -/
theorem level?_ne {level : Phrase} (isLevel : role.level? = some level) :
    level ≠ .assignment ∧ level ≠ .unary := by
  cases role with
  | operator op => cases op <;> cases isLevel <;> decide
  | _ => cases isLevel <;> decide

/-- A phrase with which no token goes on ends where the phrases of the next kind do. -/
theorem ends_of_next? {next : Phrase} (isNext : kind.next? = some next)
    (isEnd : kind = .assignment ∨ kind = .unary) (ends : role.ends next) : role.ends kind := by
  refine ends.imp_right ?_
  rintro ⟨level, isLevel, below⟩
  have notKind : level ≠ kind := by
    rintro rfl
    rcases isEnd with rfl | rfl
    · exact (level?_ne isLevel).1 rfl
    · exact (level?_ne isLevel).2 rfl
  have apart : level.rank ≠ kind.rank := fun same => notKind (Phrase.eq_of_rank same)
  rw [Phrase.rank_of_next? isNext] at below
  exact ⟨level, isLevel, by omega⟩

/-- A phrase does not end in front of a token that goes on with it. -/
theorem not_ends_of_level? (isLevel : role.level? = some kind) : ¬ role.ends kind := by
  rintro (isCloser | ⟨level, isLevel', below⟩)
  · simp only [List.mem_cons, List.not_mem_nil, or_false] at isCloser
    rcases isCloser with rfl | rfl | rfl <;> cases isLevel
  · cases isLevel.symm.trans isLevel'
    exact Nat.lt_irrefl _ below

theorem level_of_opened? {opened level : Phrase} (isOpened : role.opened? = some opened)
    (isLevel : role.level? = some level) : Phrase.assignment.rank ≤ level.rank := by
  cases role with
  | operator op => cases op <;> first | (cases isLevel; decide) | cases isOpened
  | _ => cases isLevel <;> decide

/-- An assignment does not end in front of a token with which one begins. -/
theorem not_ends_of_opens (opens : role.opens .assignment) : ¬ role.ends .assignment := by
  obtain ⟨opened, isOpened, -⟩ := opens
  rintro (isCloser | ⟨level, isLevel, below⟩)
  · simp only [List.mem_cons, List.not_mem_nil, or_false] at isCloser
    rcases isCloser with rfl | rfl | rfl <;> cases isOpened
  · exact absurd below (Nat.not_lt.2 (level_of_opened? isOpened isLevel))

theorem opened?_of_unary? {operator : UnaryOperator} (isUnary : role.unary? = some operator) :
    role.opened? = some .unary := by
  unfold unary? at isUnary
  split at isUnary
  · rfl
  · rfl
  · cases isUnary

end Role

theorem role_unary (operator : UnaryOperator) : operator.token.role.unary? = some operator := by
  cases operator <;> rfl

/-- The tokens begin like a phrase of the kind. -/
def Opens (kind : Phrase) (tokens : List Token) : Prop :=
  ∃ token rest, tokens = token :: rest ∧ token.role.opens kind

/-- A phrase of the kind ends in front of the tokens. -/
def Ends (kind : Phrase) (tokens : List Token) : Prop :=
  ∀ token rest, tokens = token :: rest → token.role.ends kind

section Borders

variable {kind inner outer : Phrase} {tokens rest : List Token} {token : Token}

theorem opens_cons_iff : Opens kind (token :: rest) ↔ token.role.opens kind := by
  constructor
  · rintro ⟨_, _, whole, opens⟩
    cases whole
    exact opens
  · exact fun opens => ⟨token, rest, rfl, opens⟩

theorem Opens.of_le (le : outer.rank ≤ inner.rank) (opens : Opens inner tokens) : Opens outer tokens := by
  obtain ⟨token, rest, rfl, opens⟩ := opens
  exact ⟨token, rest, rfl, Role.opens_of_le le opens⟩

theorem Opens.append (opens : Opens kind tokens) (rest : List Token) : Opens kind (tokens ++ rest) := by
  obtain ⟨token, more, rfl, opens⟩ := opens
  exact ⟨token, more ++ rest, rfl, opens⟩

theorem ends_nil : Ends kind [] := fun _ _ whole => nomatch whole

theorem ends_cons_iff : Ends kind (token :: rest) ↔ token.role.ends kind := by
  constructor
  · exact fun ends => ends token rest rfl
  · intro ends first more whole
    cases whole
    exact ends

theorem Ends.of_le (le : inner.rank ≤ outer.rank) (ends : Ends inner tokens) : Ends outer tokens :=
  fun token rest whole => Role.ends_of_le le (ends token rest whole)

theorem Ends.of_next? {next : Phrase} (isNext : kind.next? = some next)
    (isEnd : kind = .assignment ∨ kind = .unary) (ends : Ends next tokens) : Ends kind tokens :=
  fun token rest whole => Role.ends_of_next? isNext isEnd (ends token rest whole)

theorem Opens.not_ends (opens : Opens .assignment tokens) : ¬ Ends .assignment tokens := by
  obtain ⟨token, rest, rfl, opens⟩ := opens
  rw [ends_cons_iff]
  exact Role.not_ends_of_opens opens

end Borders

/-! ## The parser -/

/-- What has commas between its parts. -/
inductive Bracket where
  | array
  | arguments (callee : Node)

namespace Bracket

/-- The token behind the parts. -/
def close : Bracket → Role
  | array => .closeBracket
  | arguments _ => .closeParenthesis

/-- The tree with the parts. -/
def tree : Bracket → List Node → Node
  | array, parts => .synthetic (.arrayLiteral parts)
  | arguments callee, parts => .synthetic (.callExpression callee parts)

end Bracket

/-- What is to be read. -/
inductive Task where
  /-- A phrase. -/
  | phrase (kind : Phrase)
  /-- The operators behind an operand, with their other operands. -/
  | operators (kind : Phrase) (left : Node)
  /-- What makes a phrase a target or a condition, if there is any. -/
  | choice (left : Node)
  /-- The accesses and calls behind a phrase. -/
  | suffixes (object : Node)
  /-- Items up to the end of a bracket, behind those that have been read. -/
  | items (bracket : Bracket) (before : List Node)

/-- The tree that is read from the beginning of the tokens and the tokens behind it. -/
inductive Parses : Task → List Token → Node → List Token → Prop
  | operand {kind operands : Phrase} {tokens middle rest : List Token} {left tree : Node}
      (between : kind.operands? = some operands) (first : Parses (.phrase operands) tokens left middle)
      (more : Parses (.operators kind left) middle tree rest) : Parses (.phrase kind) tokens tree rest
  | operator {kind operands : Phrase} {token : Token} {operator : BinaryOperator}
      {tokens middle rest : List Token} {left right tree : Node} (isOperator : token.role = .operator operator)
      (isPhrase : operator.phrase = kind) (between : kind.operands? = some operands)
      (second : Parses (.phrase operands) tokens right middle)
      (more : Parses (.operators kind (.synthetic (.binaryExpression operator left right))) middle tree rest) :
      Parses (.operators kind left) (token :: tokens) tree rest
  | operatorsEnd {kind : Phrase} {tokens : List Token} {left : Node} (ends : Ends kind tokens) :
      Parses (.operators kind left) tokens left tokens
  | yield {token : Token} {tokens : List Token} (isYield : token.role = .yield)
      (ends : Ends .assignment tokens) :
      Parses (.phrase .assignment) (token :: tokens) (.synthetic (.yieldExpression none)) tokens
  | yieldOf {token : Token} {tokens rest : List Token} {operand : Node} (isYield : token.role = .yield)
      (opens : Opens .assignment tokens) (isOperand : Parses (.phrase .assignment) tokens operand rest) :
      Parses (.phrase .assignment) (token :: tokens) (.synthetic (.yieldExpression (some operand))) rest
  | assignmentEnd {tokens rest : List Token} {tree : Node} (opens : Opens .conditional tokens)
      (inner : Parses (.phrase .conditional) tokens tree rest) : Parses (.phrase .assignment) tokens tree rest
  | choice {tokens middle rest : List Token} {left tree : Node}
      (first : Parses (.phrase .logicalOr) tokens left middle) (more : Parses (.choice left) middle tree rest) :
      Parses (.phrase .conditional) tokens tree rest
  | assign {token : Token} {tokens rest : List Token} {target value : Node}
      (isAssign : token.role = .operator .assign) (isRight : Parses (.phrase .assignment) tokens value rest) :
      Parses (.choice target) (token :: tokens) (.synthetic (.binaryExpression .assign target value)) rest
  | conditional {question colon : Token} {tokens middle rest : List Token}
      {condition whenTrue whenFalse : Node} (isQuestion : question.role = .question)
      (isWhenTrue : Parses (.phrase .assignment) tokens whenTrue (colon :: middle))
      (isColon : colon.role = .colon) (isWhenFalse : Parses (.phrase .assignment) middle whenFalse rest) :
      Parses (.choice condition) (question :: tokens)
        (.synthetic (.conditionalExpression condition whenTrue whenFalse)) rest
  | choiceEnd {tokens : List Token} {left : Node} (ends : Ends .conditional tokens) :
      Parses (.choice left) tokens left tokens
  | unary {token : Token} {operator : UnaryOperator} {tokens rest : List Token} {operand : Node}
      (isUnary : token.role.unary? = some operator)
      (isOperand : Parses (.phrase .unary) tokens operand rest) :
      Parses (.phrase .unary) (token :: tokens) (.synthetic (.unaryExpression operator operand)) rest
  | unaryEnd {tokens rest : List Token} {tree : Node} (opens : Opens .update tokens)
      (inner : Parses (.phrase .update) tokens tree rest) : Parses (.phrase .unary) tokens tree rest
  | before {token : Token} {operator : UpdateOperator} {tokens rest : List Token} {operand : Node}
      (isUpdate : token.role = .update operator) (isOperand : Parses (.phrase .unary) tokens operand rest) :
      Parses (.phrase .update) (token :: tokens) (.synthetic (.updateExpression operator true operand)) rest
  | after {token : Token} {operator : UpdateOperator} {tokens rest : List Token} {operand : Node}
      (opens : Opens .leftHandSide tokens)
      (isOperand : Parses (.phrase .leftHandSide) tokens operand (token :: rest))
      (isUpdate : token.role = .update operator) :
      Parses (.phrase .update) tokens (.synthetic (.updateExpression operator false operand)) rest
  | updateEnd {tokens rest : List Token} {tree : Node} (opens : Opens .leftHandSide tokens)
      (inner : Parses (.phrase .leftHandSide) tokens tree rest) (ends : Ends .update rest) :
      Parses (.phrase .update) tokens tree rest
  | object {tokens middle rest : List Token} {object tree : Node}
      (first : Parses (.phrase .primary) tokens object middle)
      (more : Parses (.suffixes object) middle tree rest) : Parses (.phrase .leftHandSide) tokens tree rest
  | property {token : Token} {name : String} {tokens rest : List Token} {object tree : Node}
      (isDot : token.role = .dot)
      (more : Parses (.suffixes (.synthetic (.propertyAccess object name))) tokens tree rest) :
      Parses (.suffixes object) (token :: .word name :: tokens) tree rest
  | element {opening closing : Token} {tokens middle rest : List Token} {object index tree : Node}
      (isOpening : opening.role = .openBracket)
      (isIndex : Parses (.phrase .expression) tokens index (closing :: middle))
      (isClosing : closing.role = .closeBracket)
      (more : Parses (.suffixes (.synthetic (.elementAccess object index))) middle tree rest) :
      Parses (.suffixes object) (opening :: tokens) tree rest
  | call {opening : Token} {tokens middle rest : List Token} {callee called tree : Node}
      (isOpening : opening.role = .openParenthesis)
      (arguments : Parses (.items (.arguments callee) []) tokens called middle)
      (more : Parses (.suffixes called) middle tree rest) :
      Parses (.suffixes callee) (opening :: tokens) tree rest
  | suffixesEnd {tokens : List Token} {object : Node} (ends : Ends .leftHandSide tokens) :
      Parses (.suffixes object) tokens object tokens
  | enclosed {opening closing : Token} {tokens rest : List Token} {tree : Node}
      (isOpening : opening.role = .openParenthesis)
      (inner : Parses (.phrase .expression) tokens tree (closing :: rest))
      (isClosing : closing.role = .closeParenthesis) :
      Parses (.phrase .primary) (opening :: tokens) tree rest
  | array {opening : Token} {tokens rest : List Token} {tree : Node} (isOpening : opening.role = .openBracket)
      (elements : Parses (.items .array []) tokens tree rest) :
      Parses (.phrase .primary) (opening :: tokens) tree rest
  | atom {word : String} {kind : Kind Node} {rest : List Token} (isAtom : atom? word = some kind) :
      Parses (.phrase .primary) (.word word :: rest) (.synthetic kind) rest
  | noItem {bracket : Bracket} {before : List Node} {closing : Token} {rest : List Token}
      (first : before = []) (isClosing : closing.role = bracket.close) :
      Parses (.items bracket before) (closing :: rest) (bracket.tree []) rest
  | lastItem {bracket : Bracket} {before : List Node} {closing : Token} {tokens rest : List Token} {item : Node}
      (opens : Opens .assignment tokens) (isItem : Parses (.phrase .assignment) tokens item (closing :: rest))
      (isClosing : closing.role = bracket.close) :
      Parses (.items bracket before) tokens (bracket.tree (before ++ [item])) rest
  | item {bracket : Bracket} {before : List Node} {comma : Token} {tokens middle rest : List Token}
      {item tree : Node} (opens : Opens .assignment tokens)
      (isItem : Parses (.phrase .assignment) tokens item (comma :: middle))
      (isComma : comma.role = .operator .comma) 
      (more : Parses (.items bracket (before ++ [item])) middle tree rest) :
      Parses (.items bracket before) tokens tree rest

/-! ## At most one result -/

section Clashes

variable {kind : Phrase} {rest : List Token} {token : Token} {role : Role}

theorem Ends.not_level (ends : Ends kind (token :: rest)) (isRole : token.role = role)
    (isLevel : role.level? = some kind) : False :=
  Role.not_ends_of_level? (isRole ▸ isLevel) (ends_cons_iff.1 ends)

theorem Opens.not_opened {opened : Phrase} (opens : Opens kind (token :: rest))
    (isOpened : token.role.opened? = some opened) : ¬ opened.rank < kind.rank := by
  obtain ⟨opened', isOpened', atLeast⟩ := opens_cons_iff.1 opens
  cases isOpened.symm.trans isOpened'
  exact Nat.not_lt.2 atLeast

theorem Opens.not_yield (opens : Opens .conditional (token :: rest)) (isYield : token.role = .yield) :
    False :=
  opens.not_opened (show token.role.opened? = some .assignment by rw [isYield]; rfl) (by decide)

theorem Opens.not_unary {operator : UnaryOperator} (opens : Opens .update (token :: rest))
    (isUnary : token.role.unary? = some operator) : False :=
  opens.not_opened (Role.opened?_of_unary? isUnary) (by decide)

theorem Opens.not_update {operator : UpdateOperator} (opens : Opens .leftHandSide (token :: rest))
    (isUpdate : token.role = .update operator) : False :=
  opens.not_opened (show token.role.opened? = some .update by rw [isUpdate]; rfl) (by decide)

theorem Opens.not_closing {bracket : Bracket} (opens : Opens kind (token :: rest))
    (isClosing : token.role = bracket.close) : False := by
  obtain ⟨opened, isOpened, -⟩ := opens_cons_iff.1 opens
  rw [isClosing] at isOpened
  cases bracket <;> cases isOpened

end Clashes

theorem Parses.unique {task : Task} {tokens rest rest' : List Token} {tree tree' : Node}
    (parses : Parses task tokens tree rest) (parses' : Parses task tokens tree' rest') :
    tree = tree' ∧ rest = rest' := by
  -- The rules for one task exclude one another by what the next token opens, goes on with or closes.
  induction parses generalizing tree' rest' with
  | operand between _ _ ih ih' =>
    cases parses' with
    | operand between' first more =>
      cases between.symm.trans between'
      obtain ⟨rfl, rfl⟩ := ih first
      exact ih' more
    | _ => cases between
  | operator isOperator isPhrase between _ _ ih ih' =>
    cases parses' with
    | operator isOperator' _ between' second more =>
      cases isOperator.symm.trans isOperator'
      cases between.symm.trans between'
      obtain ⟨rfl, rfl⟩ := ih second
      exact ih' more
    | operatorsEnd ends =>
      subst isPhrase
      exact (ends.not_level isOperator (Role.level?_operator between)).elim
  | operatorsEnd ends =>
    cases parses' with
    | operator isOperator isPhrase between =>
      subst isPhrase
      exact (ends.not_level isOperator (Role.level?_operator between)).elim
    | operatorsEnd => exact ⟨rfl, rfl⟩
  | yield isYield ends =>
    cases parses' with
    | operand between => cases between
    | yield => exact ⟨rfl, rfl⟩
    | yieldOf _ opens => exact (opens.not_ends ends).elim
    | assignmentEnd opens => exact (opens.not_yield isYield).elim
  | yieldOf isYield opens _ ih =>
    cases parses' with
    | operand between => cases between
    | yield _ ends => exact (opens.not_ends ends).elim
    | yieldOf _ _ isOperand =>
      obtain ⟨rfl, rfl⟩ := ih isOperand
      exact ⟨rfl, rfl⟩
    | assignmentEnd opens => exact (opens.not_yield isYield).elim
  | assignmentEnd opens _ ih =>
    cases parses' with
    | operand between => cases between
    | yield isYield => exact (opens.not_yield isYield).elim
    | yieldOf isYield => exact (opens.not_yield isYield).elim
    | assignmentEnd _ inner => exact ih inner
  | choice _ _ ih ih' =>
    cases parses' with
    | operand between => cases between
    | choice first more =>
      obtain ⟨rfl, rfl⟩ := ih first
      exact ih' more
  | assign isAssign _ ih =>
    cases parses' with
    | assign _ isRight =>
      obtain ⟨rfl, rfl⟩ := ih isRight
      exact ⟨rfl, rfl⟩
    | conditional isQuestion => cases isAssign.symm.trans isQuestion
    | choiceEnd ends => exact (ends.not_level isAssign rfl).elim
  | conditional isQuestion _ _ _ ih ih' =>
    cases parses' with
    | assign isAssign => cases isQuestion.symm.trans isAssign
    | conditional _ isWhenTrue _ isWhenFalse =>
      obtain ⟨rfl, same⟩ := ih isWhenTrue
      cases same
      obtain ⟨rfl, rfl⟩ := ih' isWhenFalse
      exact ⟨rfl, rfl⟩
    | choiceEnd ends => exact (ends.not_level isQuestion rfl).elim
  | choiceEnd ends =>
    cases parses' with
    | assign isAssign => exact (ends.not_level isAssign rfl).elim
    | conditional isQuestion => exact (ends.not_level isQuestion rfl).elim
    | choiceEnd => exact ⟨rfl, rfl⟩
  | unary isUnary _ ih =>
    cases parses' with
    | operand between => cases between
    | unary isUnary' isOperand =>
      cases isUnary.symm.trans isUnary'
      obtain ⟨rfl, rfl⟩ := ih isOperand
      exact ⟨rfl, rfl⟩
    | unaryEnd opens => exact (opens.not_unary isUnary).elim
  | unaryEnd opens _ ih =>
    cases parses' with
    | operand between => cases between
    | unary isUnary => exact (opens.not_unary isUnary).elim
    | unaryEnd _ inner => exact ih inner
  | before isUpdate _ ih =>
    cases parses' with
    | operand between => cases between
    | before isUpdate' isOperand =>
      cases isUpdate.symm.trans isUpdate'
      obtain ⟨rfl, rfl⟩ := ih isOperand
      exact ⟨rfl, rfl⟩
    | after opens => exact (opens.not_update isUpdate).elim
    | updateEnd opens => exact (opens.not_update isUpdate).elim
  | after opens _ isUpdate ih =>
    cases parses' with
    | operand between => cases between
    | before isUpdate => exact (opens.not_update isUpdate).elim
    | after _ isOperand isUpdate' =>
      obtain ⟨rfl, same⟩ := ih isOperand
      cases same
      cases isUpdate.symm.trans isUpdate'
      exact ⟨rfl, rfl⟩
    | updateEnd _ inner ends =>
      obtain ⟨-, rfl⟩ := ih inner
      exact (ends.not_level isUpdate rfl).elim
  | updateEnd opens _ ends ih =>
    cases parses' with
    | operand between => cases between
    | before isUpdate => exact (opens.not_update isUpdate).elim
    | after _ isOperand isUpdate =>
      obtain ⟨-, rfl⟩ := ih isOperand
      exact (ends.not_level isUpdate rfl).elim
    | updateEnd _ inner => exact ih inner
  | object _ _ ih ih' =>
    cases parses' with
    | operand between => cases between
    | object first more =>
      obtain ⟨rfl, rfl⟩ := ih first
      exact ih' more
  | property isDot _ ih =>
    cases parses' with
    | property _ more => exact ih more
    | element isOpening => cases isDot.symm.trans isOpening
    | call isOpening => cases isDot.symm.trans isOpening
    | suffixesEnd ends => exact (ends.not_level isDot rfl).elim
  | element isOpening _ _ _ ih ih' =>
    cases parses' with
    | property isDot => cases isDot.symm.trans isOpening
    | element _ isIndex _ more =>
      obtain ⟨rfl, same⟩ := ih isIndex
      cases same
      exact ih' more
    | call isOpening' => cases isOpening.symm.trans isOpening'
    | suffixesEnd ends => exact (ends.not_level isOpening rfl).elim
  | call isOpening _ _ ih ih' =>
    cases parses' with
    | property isDot => cases isDot.symm.trans isOpening
    | element isOpening' => cases isOpening.symm.trans isOpening'
    | call _ arguments more =>
      obtain ⟨rfl, rfl⟩ := ih arguments
      exact ih' more
    | suffixesEnd ends => exact (ends.not_level isOpening rfl).elim
  | suffixesEnd ends =>
    cases parses' with
    | property isDot => exact (ends.not_level isDot rfl).elim
    | element isOpening => exact (ends.not_level isOpening rfl).elim
    | call isOpening => exact (ends.not_level isOpening rfl).elim
    | suffixesEnd => exact ⟨rfl, rfl⟩
  | enclosed isOpening _ _ ih =>
    cases parses' with
    | operand between => cases between
    | enclosed _ inner =>
      obtain ⟨rfl, same⟩ := ih inner
      cases same
      exact ⟨rfl, rfl⟩
    | array isOpening' => cases isOpening.symm.trans isOpening'
    | atom isAtom => cases isOpening.symm.trans (role_atom isAtom)
  | array isOpening _ ih =>
    cases parses' with
    | operand between => cases between
    | enclosed isOpening' => cases isOpening.symm.trans isOpening'
    | array _ elements => exact ih elements
    | atom isAtom => cases isOpening.symm.trans (role_atom isAtom)
  | atom isAtom =>
    cases parses' with
    | operand between => cases between
    | enclosed isOpening => cases isOpening.symm.trans (role_atom isAtom)
    | array isOpening => cases isOpening.symm.trans (role_atom isAtom)
    | atom isAtom' =>
      cases isAtom.symm.trans isAtom'
      exact ⟨rfl, rfl⟩
  | noItem _ isClosing =>
    cases parses' with
    | noItem => exact ⟨rfl, rfl⟩
    | lastItem opens => exact (opens.not_closing isClosing).elim
    | item opens => exact (opens.not_closing isClosing).elim
  | @lastItem bracket _ _ _ _ _ opens _ isClosing ih =>
    cases parses' with
    | noItem _ isClosing => exact (opens.not_closing isClosing).elim
    | lastItem _ isItem =>
      obtain ⟨rfl, same⟩ := ih isItem
      cases same
      exact ⟨rfl, rfl⟩
    | item _ isItem isComma =>
      obtain ⟨-, same⟩ := ih isItem
      cases same
      cases bracket <;> cases isClosing.symm.trans isComma
  | @item bracket _ _ _ _ _ _ _ opens _ isComma _ ih ih' =>
    cases parses' with
    | noItem _ isClosing => exact (opens.not_closing isClosing).elim
    | lastItem _ isItem isClosing =>
      obtain ⟨-, same⟩ := ih isItem
      cases same
      cases bracket <;> cases isClosing.symm.trans isComma
    | item _ isItem _ more =>
      obtain ⟨rfl, same⟩ := ih isItem
      cases same
      exact ih' more

end Resumable.Script
