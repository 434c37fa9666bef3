import Resumable.Proofs.Parser

/-!
# An expression stands for one tree

Every phrase of the grammar is read by the parser (`Derives.isRead`).  As a rule of the grammar for a binary
operator, an access or a call begins with a phrase of the same kind, this is said of a phrase with all that is
read behind it (`Continues`): the parser, having read the phrase, goes on with it as the left operand.  So a
sequence of tokens is a phrase of a kind for at most one tree (`Derives.unique`).
-/

namespace Resumable.Script

/-! ## Where phrases begin -/

/-- A phrase of the grammar begins like one. -/
theorem Derives.opens {kind : Phrase} {tokens : List Token} {tree : Node}
    (derived : Derives kind tokens tree) : Opens kind tokens := by
  induction derived with
  | next isNext _ ih => exact ih.of_le (by rw [Phrase.rank_of_next? isNext]; omega)
  | binary _ _ _ ih => exact ih.append _
  | yield => exact ⟨_, _, rfl, .assignment, rfl, by decide⟩
  | yieldOf => exact ⟨_, _, rfl, .assignment, rfl, by decide⟩
  | assign _ _ _ ih => exact (ih.append _).of_le (by decide)
  | conditional _ _ _ ih => exact (ih.append _).of_le (by decide)
  | unary => exact ⟨_, _, rfl, .unary, Role.opened?_of_unary? (role_unary _), by decide⟩
  | before => exact ⟨_, _, rfl, .update, by rw [role_update]; rfl, by decide⟩
  | after _ _ ih => exact (ih.append _).of_le (by decide)
  | property _ ih => exact ih.append _
  | element _ _ ih => exact ih.append _
  | call _ _ ih => exact ih.append _
  | array => exact ⟨_, _, rfl, .primary, rfl, by decide⟩
  | enclosed => exact ⟨_, _, rfl, .primary, rfl, by decide⟩
  | atom isAtom => exact ⟨_, _, rfl, .primary, by rw [role_atom isAtom]; rfl, by decide⟩

/-! ## What follows a phrase -/

/-- The tree that is read where a phrase of the kind is followed by the tokens, and the tokens behind it. -/
def Continues (kind : Phrase) (tree : Node) (tokens : List Token) (whole : Node) (rest : List Token) : Prop :=
  match kind.operands?, kind with
  | some operands, _ => Ends operands tokens ∧ Parses (.operators kind tree) tokens whole rest
  | none, .leftHandSide => Parses (.suffixes tree) tokens whole rest
  | none, .primary => whole = tree ∧ rest = tokens
  | none, _ => whole = tree ∧ rest = tokens ∧ Ends kind tokens

theorem continues_of_operands? {kind operands : Phrase} {tree whole : Node} {tokens rest : List Token}
    (between : kind.operands? = some operands) :
    Continues kind tree tokens whole rest ↔
      Ends operands tokens ∧ Parses (.operators kind tree) tokens whole rest := by
  unfold Continues
  rw [between]

theorem Ends.continues {kind : Phrase} {tree : Node} {tokens : List Token} (ends : Ends kind tokens) :
    Continues kind tree tokens tree tokens := by
  cases between : kind.operands? with
  | some operands =>
    have rank := Phrase.rank_of_next? (Phrase.next?_of_operands? between)
    exact (continues_of_operands? between).2 ⟨ends.of_le (by omega), .operatorsEnd ends⟩
  | none =>
    cases kind with
    | leftHandSide => exact .suffixesEnd ends
    | primary => exact ⟨rfl, rfl⟩
    | assignment => exact ⟨rfl, rfl, ends⟩
    | conditional => exact ⟨rfl, rfl, ends⟩
    | unary => exact ⟨rfl, rfl, ends⟩
    | update => exact ⟨rfl, rfl, ends⟩
    | _ => cases between

/-- The tokens are read as a phrase of the kind, whatever follows them. -/
def IsRead (kind : Phrase) (tokens : List Token) (tree : Node) : Prop :=
  ∀ following whole rest, Continues kind tree following whole rest →
    Parses (.phrase kind) (tokens ++ following) whole rest

theorem IsRead.next {kind next : Phrase} {tokens : List Token} {tree : Node} (isNext : kind.next? = some next)
    (opens : Opens next tokens) (isRead : IsRead next tokens tree) : IsRead kind tokens tree := by
  intro following whole rest continues
  have opens := opens.append following
  cases between : kind.operands? with
  | some operands =>
    obtain ⟨ends, more⟩ := (continues_of_operands? between).1 continues
    cases isNext.symm.trans (Phrase.next?_of_operands? between)
    exact .operand between (isRead _ _ _ ends.continues) more
  | none =>
    have below (ends : Ends kind following) : Ends next following :=
      ends.of_le (by rw [Phrase.rank_of_next? isNext]; omega)
    cases kind with
    | assignment =>
      obtain ⟨rfl, rfl, ends⟩ := continues
      cases isNext
      exact .assignmentEnd opens (isRead _ _ _ (below ends).continues)
    | conditional =>
      obtain ⟨rfl, rfl, ends⟩ := continues
      cases isNext
      exact .choice (isRead _ _ _ (below ends).continues) (.choiceEnd ends)
    | unary =>
      obtain ⟨rfl, rfl, ends⟩ := continues
      cases isNext
      exact .unaryEnd opens (isRead _ _ _ (below ends).continues)
    | update =>
      obtain ⟨rfl, rfl, ends⟩ := continues
      cases isNext
      exact .updateEnd opens (isRead _ _ _ (below ends).continues) ends
    | leftHandSide =>
      cases isNext
      exact .object (isRead following tree following ⟨rfl, rfl⟩) continues
    | primary => cases isNext
    | _ => cases between

/-- What is read as a phrase is read as one of every kind that binds less tightly. -/
theorem IsRead.lift {inner outer : Phrase} {tokens : List Token} {tree : Node} (opens : Opens inner tokens)
    (isRead : IsRead inner tokens tree) (le : outer.rank ≤ inner.rank) : IsRead outer tokens tree := by
  refine (Phrase.lift (fun kind => Opens kind tokens ∧ IsRead kind tokens tree) ?_ ⟨opens, isRead⟩ le).2
  rintro kind next isNext ⟨opens, isRead⟩
  exact ⟨opens.of_le (by rw [Phrase.rank_of_next? isNext]; omega), isRead.next isNext opens⟩

namespace IsRead

variable {first second : List Token} {left right : Node}

/-! ### One rule for each form -/

theorem binary {operator : BinaryOperator} {operands : Phrase}
    (between : operator.phrase.operands? = some operands) (isLeft : IsRead operator.phrase first left)
    (isRight : IsRead operands second right) :
    IsRead operator.phrase (first ++ operator.token :: second)
      (.synthetic (.binaryExpression operator left right)) := by
  intro following whole rest continues
  obtain ⟨ends, more⟩ := (continues_of_operands? between).1 continues
  rw [List.append_assoc, List.cons_append]
  refine isLeft _ _ _ ((continues_of_operands? between).2 ⟨ends_cons_iff.2 (.inr ?_), ?_⟩)
  · refine ⟨operator.phrase, by rw [role_binary, Role.level?_operator between]; rfl, ?_⟩
    rw [Phrase.rank_of_next? (Phrase.next?_of_operands? between)]
    omega
  · exact .operator (role_binary operator) rfl between (isRight _ _ _ ends.continues) more

theorem assign (isLeft : IsRead .logicalOr first left) (isRight : IsRead .assignment second right)
    (opens : Opens .conditional first) :
    IsRead .assignment (first ++ .mark "=" :: second) (.synthetic (.binaryExpression .assign left right)) := by
  rintro following whole rest ⟨rfl, rfl, ends⟩
  rw [List.append_assoc, List.cons_append]
  refine .assignmentEnd (opens.append _) (.choice (isLeft _ _ _ (Ends.continues ?_)) ?_)
  · exact ends_cons_iff.2 (.inr ⟨.conditional, rfl, by decide⟩)
  · exact .assign rfl (isRight _ _ _ ends.continues)

theorem unary {operator : UnaryOperator} (isOperand : IsRead .unary first left) :
    IsRead .unary (operator.token :: first) (.synthetic (.unaryExpression operator left)) := by
  rintro following whole rest ⟨rfl, rfl, ends⟩
  exact .unary (role_unary operator) (isOperand _ _ _ ends.continues)

theorem before {operator : UpdateOperator} (isOperand : IsRead .unary first left) :
    IsRead .update (operator.token :: first) (.synthetic (.updateExpression operator true left)) := by
  rintro following whole rest ⟨rfl, rfl, ends⟩
  exact .before (role_update operator) (isOperand _ _ _ (ends.of_next? rfl (.inr rfl)).continues)

theorem after {operator : UpdateOperator} (opens : Opens .leftHandSide first)
    (isOperand : IsRead .leftHandSide first left) :
    IsRead .update (first ++ [operator.token]) (.synthetic (.updateExpression operator false left)) := by
  rintro following whole rest ⟨rfl, rfl, ends⟩
  rw [List.append_assoc, List.singleton_append]
  refine .after (opens.append _) (isOperand _ _ _ (Ends.continues ?_)) (role_update operator)
  exact ends_cons_iff.2 (.inr ⟨.update, by rw [role_update]; rfl, by decide⟩)

theorem property {name : String} (isObject : IsRead .leftHandSide first left) :
    IsRead .leftHandSide (first ++ [.mark ".", .word name]) (.synthetic (.propertyAccess left name)) := by
  intro following whole rest continues
  rw [List.append_assoc]
  exact isObject _ _ _ (Parses.property rfl continues)

theorem enclosed (inner : IsRead .expression first left) :
    IsRead .primary (.mark "(" :: (first ++ [.mark ")"])) left := by
  rintro following whole rest ⟨rfl, rfl⟩
  rw [List.cons_append, List.append_assoc, List.singleton_append]
  refine .enclosed rfl (inner _ _ _ (Ends.continues ?_)) rfl
  exact ends_cons_iff.2 (.inl (List.mem_of_elem_eq_true rfl))

theorem atom {word : String} {kind : Kind Node} (isAtom : atom? word = some kind) :
    IsRead .primary [.word word] (.synthetic kind) := by
  rintro following whole rest ⟨rfl, rfl⟩
  exact .atom isAtom

end IsRead

/-! ## Every phrase is read -/

theorem Bracket.ends_close (bracket : Bracket) {closing : Token} (isClosing : closing.role = bracket.close)
    (kind : Phrase) (rest : List Token) : Ends kind (closing :: rest) := by
  refine ends_cons_iff.2 (.inl ?_)
  rw [isClosing]
  cases bracket <;> simp only [Bracket.close, List.mem_cons, true_or, or_true]

theorem Parses.items {bracket : Bracket} {closing : Token} (isClosing : closing.role = bracket.close)
    (rest : List Token) {items : List (List Token × Node)} (before : List Node)
    (atStart : items = [] → before = []) (each : ∀ item ∈ items, Derives .assignment item.1 item.2)
    (areRead : ∀ item ∈ items, IsRead .assignment item.1 item.2) :
    Parses (.items bracket before) (listed items ++ closing :: rest)
      (bracket.tree (before ++ items.map Prod.snd)) rest := by
  induction items using listed.induct generalizing before with
  | case1 =>
    cases atStart rfl
    exact .noItem rfl isClosing
  | case2 item =>
    have isRead := areRead item (.head _) _ _ _ (bracket.ends_close isClosing _ rest).continues
    exact .lastItem ((each item (.head _)).opens.append _) isRead isClosing
  | case3 item items notLast ih =>
    have later := ih (before ++ [item.2]) (fun isLast => (notLast isLast).elim)
      (fun later mem => each later (.tail _ mem)) (fun later mem => areRead later (.tail _ mem))
    rw [List.append_assoc, List.singleton_append] at later
    rw [listed, List.append_assoc, List.cons_append, List.map_cons]
    · refine .item ((each item (.head _)).opens.append _) (areRead item (.head _) _ _ _ (Ends.continues ?_))
        rfl later
      exact ends_cons_iff.2 (.inr ⟨.expression, rfl, by decide⟩)
    · exact notLast

/-- A phrase of the grammar is read by the parser, whatever follows it. -/
theorem Derives.isRead {kind : Phrase} {tokens : List Token} {tree : Node}
    (derived : Derives kind tokens tree) : IsRead kind tokens tree := by
  induction derived with
  | next isNext inner ih => exact ih.next isNext inner.opens
  | binary between _ _ ih ih' => exact ih.binary between ih'
  | yield =>
    rintro following whole rest ⟨rfl, rfl, ends⟩
    exact .yield rfl ends
  | yieldOf isOperand ih =>
    rintro following whole rest ⟨rfl, rfl, ends⟩
    exact .yieldOf rfl (isOperand.opens.append _) (ih _ _ _ ends.continues)
  | assign isLeft _ _ ih ih' =>
    exact (ih.lift isLeft.opens (by decide)).assign ih' (isLeft.opens.of_le (by decide))
  | conditional _ _ _ ih ih' ih'' =>
    rintro following whole rest ⟨rfl, rfl, ends⟩
    rw [List.append_assoc, List.cons_append, List.append_assoc, List.cons_append]
    refine .choice (ih _ _ _ (Ends.continues ?_)) (.conditional rfl (ih' _ _ _ (Ends.continues ?_)) rfl
      (ih'' _ _ _ (ends.of_next? rfl (.inl rfl)).continues))
    · exact ends_cons_iff.2 (.inr ⟨.conditional, rfl, by decide⟩)
    · exact ends_cons_iff.2 (.inl (List.mem_of_elem_eq_true rfl))
  | unary _ ih => exact ih.unary
  | before _ _ ih => exact ih.before
  | after isOperand _ ih => exact ih.after isOperand.opens
  | property _ ih => exact ih.property
  | element _ _ ih ih' =>
    intro following whole rest continues
    rw [List.append_assoc, List.cons_append, List.append_assoc, List.singleton_append]
    refine ih _ _ _ (Parses.element rfl (ih' _ _ _ (Ends.continues ?_)) rfl continues)
    exact ends_cons_iff.2 (.inl (List.mem_of_elem_eq_true rfl))
  | call _ each ih ih' =>
    intro following whole rest continues
    rw [List.append_assoc, List.cons_append, List.append_assoc, List.singleton_append]
    exact ih _ _ _ (Parses.call rfl (.items rfl _ [] (fun _ => rfl) each ih') continues)
  | array each ih =>
    rintro following whole rest ⟨rfl, rfl⟩
    rw [List.cons_append, List.append_assoc, List.singleton_append]
    exact .array rfl (.items rfl _ [] (fun _ => rfl) each ih)
  | enclosed _ ih => exact ih.enclosed
  | atom isAtom => exact .atom isAtom

/-- A sequence of tokens is a phrase of a kind for at most one tree. -/
theorem Derives.unique {kind : Phrase} {tokens : List Token} {tree tree' : Node}
    (derived : Derives kind tokens tree) (derived' : Derives kind tokens tree') : tree = tree' :=
  ((derived.isRead _ _ _ ends_nil.continues).unique (derived'.isRead _ _ _ ends_nil.continues)).1

end Resumable.Script
