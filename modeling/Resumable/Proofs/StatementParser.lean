import Mathlib.Order.Filter.AtTopBot.Basic
import Resumable.Proofs.Statements

/-!
# A parser for statements

`Script.readStatement` and the functions with it read tokens from left to right.  What is read next is told by
the next token, or by a colon behind it, and an `else` is taken by the innermost statement that can have one.
The fuel bounds how deep the functions call each other: they read nothing without it.

With enough fuel, every clause of the grammar is read as the tree that it stands for, whatever follows it
(`Forms.isParsed`): an expression with accesses behind it is read like the accesses by themselves, with the
expression in front of them.  As enough fuel gives one result at most, a sequence of tokens is a clause of a
kind for at most one tree (`Forms.unique`).  The parser takes more than the grammar has, as it does not check
names.
-/

namespace Resumable.Script

open Filter (atTop)

/-! ## The parser -/

/-- Passes a token. -/
def expect (token : Token) : List Token → Option (List Token)
  | [] => none
  | first :: rest => if first = token then some rest else none

/-- Reads words with commas between them, up to a closing parenthesis. -/
def readNames : List Token → Option (List String × List Token)
  | .mark ")" :: rest => some ([], rest)
  | .word name :: .mark "," :: rest => (readNames rest).map fun (names, rest) => (name :: names, rest)
  | .word name :: .mark ")" :: rest => some ([name], rest)
  | _ => none

mutual

/-- Reads a statement. -/
def readStatement (fuel : Nat) (tokens : List Token) : Option (Node × List Token) :=
  match fuel, tokens with
  | 0, _ => none
  | fuel + 1, .mark "\x7b" :: rest => do
    let (items, rest) ← readStatements fuel rest
    return (.synthetic (.block items), rest)
  | fuel + 1, .word "if" :: .mark "(" :: rest => do
    let (condition, rest) ← readExpression fuel rest
    let rest ← expect (.mark ")") rest
    let (thenBranch, rest) ← readStatement fuel rest
    match rest with
    | .word "else" :: rest => do
      let (elseBranch, rest) ← readStatement fuel rest
      return (.synthetic (.ifStatement condition thenBranch (some elseBranch)), rest)
    | rest => return (.synthetic (.ifStatement condition thenBranch none), rest)
  | fuel + 1, .word "while" :: .mark "(" :: rest => do
    let (condition, rest) ← readExpression fuel rest
    let rest ← expect (.mark ")") rest
    let (body, rest) ← readStatement fuel rest
    return (.synthetic (.whileStatement condition body), rest)
  | fuel + 1, .word "do" :: rest => do
    let (body, rest) ← readStatement fuel rest
    let rest ← expect (.word "while") rest
    let rest ← expect (.mark "(") rest
    let (condition, rest) ← readExpression fuel rest
    let rest ← expect (.mark ")") rest
    let rest ← expect (.mark ";") rest
    return (.synthetic (.doWhileStatement body condition), rest)
  | fuel + 1, .word "for" :: .mark "(" :: rest => do
    let (initializer, rest) ← readIfAny fuel (.mark ";") rest
    let (condition, rest) ← readIfAny fuel (.mark ";") rest
    let (incrementor, rest) ← readIfAny fuel (.mark ")") rest
    let (body, rest) ← readStatement fuel rest
    return (.synthetic (.forStatement initializer condition incrementor body), rest)
  | fuel + 1, .word "return" :: rest => do
    let (value, rest) ← readIfAny fuel (.mark ";") rest
    return (.synthetic (.returnStatement value), rest)
  | fuel + 1, .word label :: .mark ":" :: rest => do
    let (statement, rest) ← readStatement fuel rest
    return (.synthetic (.labeledStatement label statement), rest)
  | fuel + 1, tokens => do
    let (expression, rest) ← readExpression fuel tokens
    let rest ← expect (.mark ";") rest
    return (.synthetic (.expressionStatement expression), rest)

/-- Reads statements up to a closing brace. -/
def readStatements (fuel : Nat) (tokens : List Token) : Option (List Node × List Token) :=
  match fuel, tokens with
  | 0, _ => none
  | _ + 1, .mark "\x7d" :: rest => some ([], rest)
  | fuel + 1, tokens => do
    let (statement, rest) ← readStatement fuel tokens
    let (items, rest) ← readStatements fuel rest
    return (statement :: items, rest)

/-- Reads what may be absent, up to a token. -/
def readIfAny (fuel : Nat) (closing : Token) (tokens : List Token) : Option (Option Node × List Token) :=
  match fuel with
  | 0 => none
  | fuel + 1 => do
    if tokens.head? = some closing then
      return (none, tokens.tail)
    else
      let (expression, rest) ← readExpression fuel tokens
      let rest ← expect closing rest
      return (some expression, rest)

/-- Reads an expression. -/
def readExpression (fuel : Nat) (tokens : List Token) : Option (Node × List Token) :=
  match fuel with
  | 0 => none
  | fuel + 1 => do
    let (target, rest) ← readAccess fuel true tokens
    match rest with
    | .mark "=" :: rest => do
      let (value, rest) ← readExpression fuel rest
      return (.synthetic (.binaryExpression .assign target value), rest)
    | rest => return (target, rest)

/-- Reads an expression with the accesses, and the calls if there may be any, behind it. -/
def readAccess (fuel : Nat) (calls : Bool) (tokens : List Token) : Option (Node × List Token) :=
  match fuel, tokens with
  | 0, _ => none
  | fuel + 1, .word "new" :: rest => do
    let (callee, rest) ← readAccess fuel false rest
    let rest ← expect (.mark "(") rest
    let (arguments, rest) ← readItems fuel rest
    readSuffixes fuel calls (.synthetic (.newExpression callee arguments)) rest
  | fuel + 1, tokens => do
    let (tree, rest) ← readPrimary fuel tokens
    readSuffixes fuel calls tree rest

/-- Reads the accesses and calls behind an expression. -/
def readSuffixes (fuel : Nat) (calls : Bool) (tree : Node) (tokens : List Token) : Option (Node × List Token) :=
  match fuel, tokens with
  | 0, _ => none
  | fuel + 1, .mark "." :: .word name :: rest =>
    readSuffixes fuel calls (.synthetic (.propertyAccess tree name)) rest
  | fuel + 1, .mark "[" :: rest => do
    let (index, rest) ← readExpression fuel rest
    let rest ← expect (.mark "]") rest
    readSuffixes fuel calls (.synthetic (.elementAccess tree index)) rest
  | fuel + 1, .mark "(" :: rest =>
    if calls then do
      let (arguments, rest) ← readItems fuel rest
      readSuffixes fuel calls (.synthetic (.callExpression tree arguments)) rest
    else some (tree, .mark "(" :: rest)
  | _ + 1, tokens => some (tree, tokens)

/-- Reads items with commas between them, up to a closing parenthesis. -/
def readItems (fuel : Nat) (tokens : List Token) : Option (List Node × List Token) :=
  match fuel, tokens with
  | 0, _ => none
  | _ + 1, .mark ")" :: rest => some ([], rest)
  | fuel + 1, tokens => do
    let (item, rest) ← readExpression fuel tokens
    match rest with
    | .mark "," :: rest => do
      let (items, rest) ← readItems fuel rest
      return (item :: items, rest)
    | .mark ")" :: rest => return ([item], rest)
    | _ => none

/-- Reads properties with commas between them, up to a closing brace. -/
def readProperties (fuel : Nat) (tokens : List Token) : Option (List Node × List Token) :=
  match fuel, tokens with
  | 0, _ => none
  | _ + 1, .mark "\x7d" :: rest => some ([], rest)
  | fuel + 1, .word name :: .mark ":" :: rest => do
    let (value, rest) ← readExpression fuel rest
    let property : Node := .synthetic (.propertyAssignment name value)
    match rest with
    | .mark "," :: rest => do
      let (properties, rest) ← readProperties fuel rest
      return (property :: properties, rest)
    | .mark "\x7d" :: rest => return ([property], rest)
    | _ => none
  | _, _ => none

/-- Reads a name, an object, a function or an expression in parentheses. -/
def readPrimary (fuel : Nat) (tokens : List Token) : Option (Node × List Token) :=
  match fuel, tokens with
  | 0, _ => none
  | fuel + 1, .mark "(" :: rest => do
    let (tree, rest) ← readExpression fuel rest
    let rest ← expect (.mark ")") rest
    return (tree, rest)
  | fuel + 1, .mark "\x7b" :: rest => do
    let (properties, rest) ← readProperties fuel rest
    return (.synthetic (.objectLiteral properties), rest)
  | fuel + 1, .word "function" :: rest => do
    let (isGenerator, rest) := if rest.head? = some (.mark "*") then (true, rest.tail) else (false, rest)
    let (name, rest) := match rest with
      | .word name :: rest => (some name, rest)
      | rest => (none, rest)
    let rest ← expect (.mark "(") rest
    let (parameters, rest) ← readNames rest
    let rest ← expect (.mark "\x7b") rest
    let (body, rest) ← readStatements fuel rest
    return (functionTree isGenerator name parameters body, rest)
  | _ + 1, .word name :: rest => some (.synthetic (.identifier name), rest)
  | _, _ => none

end

/-! ## Where clauses begin -/

/-- The token begins a primary expression. -/
def IsOpening (token : Token) : Prop :=
  token = .mark "(" ∨ token = .mark "\x7b" ∨ token = .word "function" ∨ ∃ name ∉ reserved, token = .word name

/-- The token begins an expression. -/
def IsLeading (token : Token) : Prop := IsOpening token ∨ token = .word "new"

/-- The tokens begin with such a token, and not like a labelled statement. -/
def BeginsWith (heads : Token → Prop) (tokens : List Token) : Prop :=
  ∃ first rest, tokens = first :: rest ∧ heads first ∧ rest.head? ≠ some (.mark ":")

theorem BeginsWith.append {heads : Token → Prop} {tokens behind : List Token} (begins : BeginsWith heads tokens)
    (noColon : behind.head? ≠ some (.mark ":")) : BeginsWith heads (tokens ++ behind) := by
  obtain ⟨first, rest, rfl, isHead, other⟩ := begins
  refine ⟨first, rest ++ behind, rfl, isHead, ?_⟩
  cases rest with
  | nil => exact noColon
  | cons => exact other

theorem IsLeading.ne {first token : Token} (isLeading : IsLeading first)
    (isMark : token ≠ .mark "(" ∧ token ≠ .mark "\x7b" ∧ token ≠ .word "function" ∧ token ≠ .word "new")
    (isReserved : ∀ name, token = .word name → name ∈ reserved) : first ≠ token := by
  rintro rfl
  obtain ⟨notParenthesis, notBrace, notFunction, notNew⟩ := isMark
  rcases isLeading with (same | same | same | ⟨name, free, same⟩) | same
  · exact notParenthesis same
  · exact notBrace same
  · exact notFunction same
  · exact free (isReserved name same)
  · exact notNew same

/-- No expression begins with another mark. -/
theorem IsLeading.ne_mark {first : Token} (isLeading : IsLeading first) {mark : String}
    (other : mark ≠ "(" ∧ mark ≠ "\x7b") : first ≠ .mark mark := by
  refine isLeading.ne ⟨fun same => other.1 (Token.mark.inj same), fun same => other.2 (Token.mark.inj same),
    nofun, nofun⟩ nofun

/-- No expression begins with another word of the language. -/
theorem IsLeading.ne_word {first : Token} (isLeading : IsLeading first) {word : String}
    (isReserved : word ∈ reserved)
    (other : word ≠ "function" ∧ word ≠ "new") : first ≠ .word word := by
  refine isLeading.ne ⟨nofun, nofun, fun same => other.1 (Token.word.inj same),
    fun same => other.2 (Token.word.inj same)⟩ fun name same => ?_
  cases same
  exact isReserved

/-- How the tokens of a clause begin. -/
def Clause.Begins : Clause → List Token → Prop
  | statement _, tokens => ∃ first rest, tokens = first :: rest ∧ first ≠ .mark "\x7d" ∧ first ≠ .word "else"
  | primary, tokens => BeginsWith IsOpening tokens
  | expression, tokens | access _, tokens => BeginsWith IsLeading tokens

theorem Forms.begins {clause : Clause} {tokens : List Token} {tree : Node} (forms : Forms clause tokens tree) :
    clause.Begins tokens := by
  induction forms with
  | block | ifThen | ifElse | «while» | doWhile | «for» | «return» => exact ⟨_, _, rfl, by decide, by decide⟩
  | @labeled shut label tokens statement free =>
    refine ⟨_, _, rfl, nofun, fun same => free ?_⟩
    rw [Token.word.inj same]
    decide
  | expressionStatement isExpression other ih =>
    obtain ⟨first, rest, rfl, isLeading, -⟩ := ih
    exact ⟨first, _, rfl, isLeading.ne_mark (by decide), isLeading.ne_word (by decide) (by decide)⟩
  | assign _ _ ih =>
    rw [List.append_assoc]
    exact ih.append (by simp)
  | ofAccess _ ih => exact ih
  | call _ _ ih =>
    rw [List.append_assoc, List.append_assoc]
    exact ih.append (by simp)
  | new _ _ ih =>
    obtain ⟨first, rest, rfl, isLeading, -⟩ := ih
    exact ⟨_, _, rfl, .inr rfl, fun isColon => isLeading.ne_mark (by decide) (Option.some.inj isColon)⟩
  | property _ ih => exact ih.append (by simp)
  | element _ _ ih =>
    rw [List.append_assoc, List.append_assoc]
    exact ih.append (by simp)
  | ofPrimary _ ih =>
    obtain ⟨first, rest, isFirst, isOpening, noColon⟩ := ih
    exact ⟨first, rest, isFirst, .inl isOpening, noColon⟩
  | @name name free => exact ⟨_, [], rfl, .inr (.inr (.inr ⟨name, free, rfl⟩)), nofun⟩
  | @object properties each ih =>
    refine ⟨_, _, rfl, .inr (.inl rfl), ?_⟩
    cases properties with
    | nil => simp [commas]
    | cons property rest => cases rest <;> simp [commas, propertyTokens]
  | @function isGenerator name parameters items free each ih =>
    refine ⟨_, _, rfl, .inr (.inr (.inl rfl)), ?_⟩
    cases isGenerator <;> cases name <;> simp
  | enclosed inner ih =>
    obtain ⟨first, rest, rfl, isLeading, -⟩ := ih
    exact ⟨_, _, rfl, .inl rfl, fun isColon => isLeading.ne_mark (by decide) (Option.some.inj isColon)⟩

/-! ## Every clause is read -/

/-- An expression ends in front of the tokens. -/
def Stops (tokens : List Token) : Prop :=
  ∀ token ∈ tokens.head?, token ∉ [.mark ".", .mark "[", .mark "(", .mark "="]

theorem stops_nil : Stops [] := fun _ isHead => nomatch isHead

theorem stops_cons {token : Token} {rest : List Token}
    (stops : token ∉ [.mark ".", .mark "[", .mark "(", .mark "="]) : Stops (token :: rest) := by
  rintro _ ⟨⟩
  exact stops

/-- The tokens are read as a clause of the kind that stands for the tree, whatever follows them. -/
def IsParsed : Clause → List Token → Node → Prop
  | .statement shut, tokens, tree => ∀ following, (shut = false → following.head? ≠ some (.word "else")) →
      ∀ᶠ fuel in atTop, readStatement fuel (tokens ++ following) = some (tree, following)
  | .expression, tokens, tree => ∀ following, Stops following →
      ∀ᶠ fuel in atTop, readExpression fuel (tokens ++ following) = some (tree, following)
  | .access called, tokens, tree => ∀ calls following result, (called = true → calls = true) →
      (∀ᶠ fuel in atTop, readSuffixes fuel calls tree following = some result) →
      ∀ᶠ fuel in atTop, readAccess fuel calls (tokens ++ following) = some result
  | .primary, tokens, tree => ∀ following,
      ∀ᶠ fuel in atTop, readPrimary fuel (tokens ++ following) = some (tree, following)

/-- A call may take some of the fuel, if there is enough. -/
theorem eventually_of_succ {p : Nat → Prop} (isNext : ∀ᶠ fuel in atTop, p (fuel + 1)) :
    ∀ᶠ fuel in atTop, p fuel := by
  rwa [← Filter.map_add_atTop_eq_nat 1, Filter.eventually_map]

/-- With enough fuel there is only one result. -/
theorem eq_of_eventually {α : Type} {read : Nat → Option α} {result result' : α}
    (isRead : ∀ᶠ fuel in atTop, read fuel = some result)
    (isRead' : ∀ᶠ fuel in atTop, read fuel = some result') : result = result' := by
  obtain ⟨fuel, same, same'⟩ := (isRead.and isRead').exists
  exact Option.some.inj (same.symm.trans same')

theorem expect_cons (token : Token) (rest : List Token) : expect token (token :: rest) = some rest :=
  if_pos rfl

theorem readSuffixes_of_stops {calls : Bool} {tree : Node} {following : List Token}
    (stops : ∀ token ∈ following.head?, token ≠ .mark "." ∧ token ≠ .mark "[" ∧
      (calls = true → token ≠ .mark "(")) :
    ∀ᶠ fuel in atTop, readSuffixes fuel calls tree following = some (tree, following) := by
  refine eventually_of_succ (.of_forall fun fuel => ?_)
  cases following with
  | nil => rw [readSuffixes] <;> nofun
  | cons token rest =>
    obtain ⟨notDot, notBracket, notCall⟩ := stops token rfl
    by_cases isCall : token = .mark "("
    · subst isCall
      rw [readSuffixes, if_neg fun isCalls => notCall isCalls rfl]
    · rw [readSuffixes]
      · rintro name rest ⟨⟩
        exact notDot rfl
      · rintro rest ⟨⟩
        exact notBracket rfl
      · rintro rest ⟨⟩
        exact isCall rfl

/-- What is read as a statement by itself is read among others. -/
theorem readStatements_items {items : List (List Token × Node)} (rest : List Token)
    (each : ∀ item ∈ items, Forms (.statement false) item.1 item.2)
    (areParsed : ∀ item ∈ items, IsParsed (.statement false) item.1 item.2) :
    ∀ᶠ fuel in atTop, readStatements fuel (items.flatMap Prod.fst ++ .mark "\x7d" :: rest) =
      some (items.map Prod.snd, rest) := by
  induction items with
  | nil =>
    refine eventually_of_succ (.of_forall fun fuel => ?_)
    rw [List.flatMap_nil, List.nil_append, readStatements]
    rfl
  | cons item items ih =>
    obtain ⟨isStatement, each⟩ := List.forall_mem_cons.1 each
    obtain ⟨isParsed, areParsed⟩ := List.forall_mem_cons.1 areParsed
    obtain ⟨first, more, begins, notBrace, -⟩ := isStatement.begins
    have notElse : (items.flatMap Prod.fst ++ .mark "\x7d" :: rest).head? ≠ some (.word "else") := by
      cases items with
      | nil => nofun
      | cons next items =>
        obtain ⟨first, more, begins, -, notElse⟩ := (each next (.head _)).begins
        rw [List.flatMap_cons, begins]
        exact fun isElse => notElse (Option.some.inj isElse)
    refine eventually_of_succ ?_
    filter_upwards [isParsed _ fun _ => notElse, ih each areParsed] with fuel isFirst areOthers
    rw [List.flatMap_cons, List.append_assoc, readStatements, isFirst]
    · simp only [Option.bind_eq_bind, Option.bind_some, areOthers]
      rfl
    · rintro rest isBrace
      rw [begins] at isBrace
      cases isBrace
      exact notBrace rfl

theorem readItems_items {items : List (List Token × Node)} (rest : List Token)
    (each : ∀ item ∈ items, Forms .expression item.1 item.2)
    (areParsed : ∀ item ∈ items, IsParsed .expression item.1 item.2) :
    ∀ᶠ fuel in atTop, readItems fuel (commas (items.map Prod.fst) ++ .mark ")" :: rest) =
      some (items.map Prod.snd, rest) := by
  induction items with
  | nil =>
    refine eventually_of_succ (.of_forall fun fuel => ?_)
    rw [List.map_nil, commas, List.nil_append, readItems]
    rfl
  | cons item items ih =>
    obtain ⟨isItem, each⟩ := List.forall_mem_cons.1 each
    obtain ⟨isParsed, areParsed⟩ := List.forall_mem_cons.1 areParsed
    obtain ⟨first, more, begins, isLeading, -⟩ := isItem.begins
    have notClosing {tokens : List Token} : ∀ rest, item.1 ++ tokens ≠ .mark ")" :: rest := by
      intro rest isClosing
      rw [begins] at isClosing
      cases isClosing
      exact isLeading.ne_mark (by decide) rfl
    refine eventually_of_succ ?_
    cases items with
    | nil =>
      filter_upwards [isParsed (.mark ")" :: rest) (stops_cons (by decide))] with fuel isItem
      rw [List.map_singleton, commas, readItems, isItem]
      · rfl
      · exact notClosing
    | cons next items =>
      have others := ih each areParsed
      rw [List.map_cons] at others
      filter_upwards [isParsed (.mark "," :: (commas (next.1 :: items.map Prod.fst) ++ .mark ")" :: rest))
        (stops_cons (by decide)), others] with fuel isItem areOthers
      rw [List.map_cons, List.map_cons, commas, List.append_assoc, List.cons_append, readItems, isItem]
      · simp only [Option.bind_eq_bind, Option.bind_some, areOthers]
        rfl
      · exact notClosing
      · exact nofun

theorem readProperties_properties {properties : List (String × List Token × Node)} (rest : List Token)
    (areParsed : ∀ property ∈ properties, IsParsed .expression property.2.1 property.2.2) :
    ∀ᶠ fuel in atTop, readProperties fuel (commas (properties.map propertyTokens) ++ .mark "\x7d" :: rest) =
      some (properties.map propertyTree, rest) := by
  induction properties with
  | nil =>
    refine eventually_of_succ (.of_forall fun fuel => ?_)
    rw [List.map_nil, commas, List.nil_append, readProperties]
    rfl
  | cons property properties ih =>
    obtain ⟨isParsed, areParsed⟩ := List.forall_mem_cons.1 areParsed
    refine eventually_of_succ ?_
    cases properties with
    | nil =>
      filter_upwards [isParsed (.mark "\x7d" :: rest) (stops_cons (by decide))] with fuel isValue
      rw [List.map_singleton, commas, propertyTokens, List.append_assoc, List.cons_append, List.cons_append,
        List.nil_append, readProperties, isValue]
      rfl
    | cons next properties =>
      have others := ih areParsed
      rw [List.map_cons] at others
      filter_upwards [isParsed (.mark "," :: (commas (propertyTokens next :: properties.map propertyTokens) ++
        .mark "\x7d" :: rest)) (stops_cons (by decide)), others] with fuel isValue areOthers
      rw [List.map_cons, List.map_cons, commas, List.append_assoc, propertyTokens, List.append_assoc,
        List.cons_append, List.cons_append, List.nil_append, List.cons_append, readProperties, isValue]
      · simp only [Option.bind_eq_bind, Option.bind_some, areOthers]
        rfl
      · exact nofun

theorem readNames_names (names : List String) (rest : List Token) :
    readNames (commas (names.map fun name => [.word name]) ++ .mark ")" :: rest) = some (names, rest) := by
  induction names with
  | nil => rfl
  | cons name names ih =>
    cases names with
    | nil => rfl
    | cons next names =>
      rw [List.map_cons, List.map_cons, commas]
      · rw [List.map_cons] at ih
        rw [List.append_assoc, List.singleton_append, List.cons_append, readNames, ih]
        rfl
      · exact nofun

/-- What is read as an expression is read up to the mark behind it. -/
theorem readIfAny_part (mark : String) (rest : List Token) {part : Option (List Token × Node)}
    (isClosing : mark = ";" ∨ mark = ")") (each : ∀ item ∈ part, Forms .expression item.1 item.2)
    (areParsed : ∀ item ∈ part, IsParsed .expression item.1 item.2) :
    ∀ᶠ fuel in atTop, readIfAny fuel (.mark mark) (tokensIfAny part ++ .mark mark :: rest) =
      some (part.map Prod.snd, rest) := by
  have stops : Stops (.mark mark :: rest) := stops_cons (by rcases isClosing with rfl | rfl <;> decide)
  refine eventually_of_succ ?_
  cases part with
  | none => exact .of_forall fun _ => if_pos rfl
  | some item =>
    obtain ⟨first, more, begins, isLeading, -⟩ := (each item rfl).begins
    have notClosing : (tokensIfAny (some item) ++ .mark mark :: rest).head? ≠ some (.mark mark) := by
      rw [tokensIfAny, begins]
      exact fun same => isLeading.ne_mark (by rcases isClosing with rfl | rfl <;> decide) (Option.some.inj same)
    filter_upwards [areParsed item rfl _ stops] with fuel isItem
    rw [readIfAny, if_neg notClosing, tokensIfAny, isItem]
    simp only [Option.bind_eq_bind, Option.bind_some, expect_cons]
    rfl

/-- A clause of the grammar is read by the parser, whatever follows it. -/
theorem Forms.isParsed {clause : Clause} {tokens : List Token} {tree : Node}
    (forms : Forms clause tokens tree) :
    IsParsed clause tokens tree := by
  induction forms with
  | block each ih =>
    intro following _
    refine eventually_of_succ ?_
    filter_upwards [readStatements_items following each ih] with fuel areItems
    simp only [List.append_assoc, List.cons_append, List.nil_append]
    rw [readStatement, areItems]
    rfl
  | @ifThen _ second _ _ _ _ ih ih' =>
    intro following notElse
    refine eventually_of_succ ?_
    filter_upwards [ih (.mark ")" :: (second ++ following)) (stops_cons (by decide)), ih' _ notElse] with
      fuel isCondition isBranch
    simp only [List.append_assoc, List.cons_append, List.nil_append]
    rw [readStatement, isCondition]
    simp only [Option.bind_eq_bind, Option.bind_some, expect_cons, isBranch]
    split
    · exact absurd rfl (notElse rfl)
    · rfl
  | @ifElse _ _ second third _ _ _ _ _ _ ih ih' ih'' =>
    intro following notElse
    refine eventually_of_succ ?_
    filter_upwards [ih (.mark ")" :: (second ++ .word "else" :: (third ++ following))) (stops_cons (by decide)),
      ih' (.word "else" :: (third ++ following)) (fun isOpen => absurd isOpen (by decide)), ih'' _ notElse] with
      fuel isCondition isThenBranch isElseBranch
    simp only [List.append_assoc, List.cons_append, List.nil_append]
    rw [readStatement, isCondition]
    simp only [Option.bind_eq_bind, Option.bind_some, expect_cons, isThenBranch, isElseBranch]
    rfl
  | @«while» _ _ second _ _ _ _ ih ih' =>
    intro following notElse
    refine eventually_of_succ ?_
    filter_upwards [ih (.mark ")" :: (second ++ following)) (stops_cons (by decide)), ih' _ notElse] with
      fuel isCondition isBody
    simp only [List.append_assoc, List.cons_append, List.nil_append]
    rw [readStatement, isCondition]
    simp only [Option.bind_eq_bind, Option.bind_some, expect_cons, isBody]
    rfl
  | @doWhile _ _ second _ _ _ _ ih ih' =>
    intro following _
    refine eventually_of_succ ?_
    filter_upwards [ih (.word "while" :: .mark "(" :: (second ++ .mark ")" :: .mark ";" :: following))
        fun _ => by simp,
      ih' (.mark ")" :: .mark ";" :: following) (stops_cons (by decide))] with fuel isBody isCondition
    simp only [List.append_assoc, List.cons_append, List.nil_append]
    rw [readStatement, isBody]
    simp only [Option.bind_eq_bind, Option.bind_some, expect_cons, isCondition]
    rfl
  | @«for» _ _ condition incrementor tokens _ isInitializer isCondition isIncrementor _ ih ih' ih''
      ihBody =>
    intro following notElse
    refine eventually_of_succ ?_
    filter_upwards [
      readIfAny_part ";" (tokensIfAny condition ++ .mark ";" :: (tokensIfAny incrementor ++ .mark ")" ::
        (tokens ++ following))) (.inl rfl) isInitializer ih,
      readIfAny_part ";" (tokensIfAny incrementor ++ .mark ")" :: (tokens ++ following)) (.inl rfl) isCondition
        ih',
      readIfAny_part ")" (tokens ++ following) (.inr rfl) isIncrementor ih'',
      ihBody _ notElse] with fuel isFirst isSecond isThird isLast
    simp only [List.append_assoc, List.cons_append, List.nil_append]
    rw [readStatement, isFirst]
    simp only [Option.bind_eq_bind, Option.bind_some, isSecond, isThird, isLast]
    rfl
  | @labeled _ label _ _ free _ ih =>
    intro following notElse
    have other (word : String) (isReserved : word ∈ reserved) : label ≠ word :=
      fun same => free (same ▸ isReserved)
    refine eventually_of_succ ?_
    filter_upwards [ih _ notElse] with fuel isStatement
    simp only [List.cons_append, List.nil_append]
    rw [readStatement, isStatement]
    · rfl
    · exact other "do" (by decide)
    · exact other "return" (by decide)
  | «return» isValue ih =>
    intro following _
    refine eventually_of_succ ?_
    filter_upwards [readIfAny_part ";" following (.inl rfl) isValue ih] with fuel isRead
    simp only [List.append_assoc, List.cons_append, List.nil_append]
    rw [readStatement, isRead]
    rfl
  | expressionStatement isExpression other ih =>
    intro following _
    obtain ⟨first, rest, rfl, isLeading, noColon⟩ := isExpression.begins
    have notWord (word : String) (isWord : word ∈ reserved ∧ word ≠ "function" ∧ word ≠ "new")
        {tokens more : List Token} (same : first :: tokens = .word word :: more) : False :=
      isLeading.ne_word isWord.1 isWord.2 (List.cons.inj same).1
    refine eventually_of_succ ?_
    filter_upwards [ih (.mark ";" :: following) (stops_cons (by decide))] with fuel isRead
    rw [List.append_assoc, List.singleton_append, readStatement, isRead]
    · simp only [Option.bind_eq_bind, Option.bind_some, expect_cons]
      rfl
    · exact fun rest same => (other first rfl).1 (List.cons.inj same).1
    · exact fun rest => notWord "if" (by decide)
    · exact fun rest => notWord "while" (by decide)
    · exact fun rest => notWord "do" (by decide)
    · exact fun rest => notWord "for" (by decide)
    · exact fun rest => notWord "return" (by decide)
    · rintro label rest' isLabeled
      have isColon := congrArg List.head? (List.cons.inj isLabeled).2
      cases rest with
      | nil => exact absurd isColon (by simp)
      | cons second rest => exact noColon isColon
  | @assign _ _ second target _ _ _ ih ih' =>
    intro following stops
    have ended : ∀ᶠ fuel in atTop, readSuffixes fuel true target (.mark "=" :: (second ++ following)) =
        some (target, .mark "=" :: (second ++ following)) := by
      refine readSuffixes_of_stops ?_
      rintro _ ⟨⟩
      exact ⟨by decide, by decide, fun _ => by decide⟩
    refine eventually_of_succ ?_
    filter_upwards [ih true _ _ (fun _ => rfl) ended, ih' _ stops] with fuel isTarget isValue
    simp only [List.append_assoc, List.cons_append, List.nil_append]
    rw [readExpression, isTarget]
    simp only [Option.bind_eq_bind, Option.bind_some, isValue]
    rfl
  | @ofAccess _ _ tree _ ih =>
    intro following stops
    have ended : ∀ᶠ fuel in atTop, readSuffixes fuel true tree following = some (tree, following) := by
      refine readSuffixes_of_stops fun token isHead => ?_
      have stops := stops token isHead
      simp only [List.mem_cons, List.not_mem_nil, or_false, not_or] at stops
      exact ⟨stops.1, stops.2.1, fun _ => stops.2.2.1⟩
    refine eventually_of_succ ?_
    filter_upwards [ih true _ _ (fun _ => rfl) ended] with fuel isRead
    rw [readExpression, isRead]
    simp only [Option.bind_eq_bind, Option.bind_some]
    split
    · exact absurd (by decide) (stops _ rfl)
    · rfl
  | call isCallee each ih ih' =>
    intro calls following result isCalls ended
    simp only [List.append_assoc, List.cons_append, List.nil_append]
    refine ih calls _ result (fun _ => isCalls rfl) (eventually_of_succ ?_)
    filter_upwards [readItems_items following each ih', ended] with fuel areArguments isRead
    rw [readSuffixes, if_pos (isCalls rfl), areArguments]
    exact isRead
  | @new _ callee arguments isCallee each ih ih' =>
    intro calls following result _ ended
    have isOpen : ∀ᶠ fuel in atTop, readSuffixes fuel false callee
        (.mark "(" :: (commas (arguments.map Prod.fst) ++ .mark ")" :: following)) =
          some (callee, .mark "(" :: (commas (arguments.map Prod.fst) ++ .mark ")" :: following)) := by
      refine readSuffixes_of_stops ?_
      rintro _ ⟨⟩
      exact ⟨by decide, by decide, (absurd · Bool.false_ne_true)⟩
    refine eventually_of_succ ?_
    filter_upwards [ih false _ _ (fun isCalls => isCalls) isOpen, readItems_items following each ih', ended] with
      fuel isRead areArguments isResult
    simp only [List.append_assoc, List.cons_append, List.nil_append]
    rw [readAccess, isRead]
    simp only [Option.bind_eq_bind, Option.bind_some, expect_cons, areArguments]
    exact isResult
  | property _ ih =>
    intro calls following result isCalls ended
    simp only [List.append_assoc, List.cons_append, List.nil_append]
    refine ih calls _ result isCalls (eventually_of_succ ?_)
    filter_upwards [ended] with fuel isRead
    rwa [readSuffixes]
  | element _ _ ih ih' =>
    intro calls following result isCalls ended
    simp only [List.append_assoc, List.cons_append, List.nil_append]
    refine ih calls _ result isCalls (eventually_of_succ ?_)
    filter_upwards [ih' (.mark "]" :: following) (stops_cons (by decide)), ended] with fuel isIndex isRead
    rw [readSuffixes, isIndex]
    simpa only [Option.bind_eq_bind, Option.bind_some, expect_cons] using isRead
  | ofPrimary isPrimary ih =>
    intro calls following result _ ended
    obtain ⟨first, rest, begins, isOpening, -⟩ := isPrimary.begins
    refine eventually_of_succ ?_
    filter_upwards [ih following, ended] with fuel isRead isResult
    rw [readAccess, isRead]
    · exact isResult
    · rintro rest isNew
      rw [begins] at isNew
      cases isNew
      rcases isOpening with same | same | same | ⟨name, free, same⟩
      · cases same
      · cases same
      · exact absurd same (by decide)
      · exact free (Token.word.inj same ▸ by decide)
  | @name name free =>
    intro following
    refine eventually_of_succ (.of_forall fun fuel => ?_)
    rw [List.singleton_append, readPrimary]
    rintro ⟨⟩
    exact free (by decide)
  | object each ih =>
    intro following
    refine eventually_of_succ ?_
    filter_upwards [readProperties_properties following ih] with fuel areProperties
    simp only [List.append_assoc, List.cons_append, List.nil_append]
    rw [readPrimary, areProperties]
    rfl
  | @function isGenerator name parameters items free each ih =>
    intro following
    have tokens : functionTokens isGenerator name parameters ++
        ([.mark "\x7b"] ++ items.flatMap Prod.fst ++ [.mark "\x7d"]) ++ following =
        .word "function" :: ((if isGenerator then [.mark "*"] else []) ++ (name.toList.map .word ++ .mark "(" ::
          (commas (parameters.map fun parameter => [.word parameter]) ++ .mark ")" :: .mark "\x7b" ::
            (items.flatMap Prod.fst ++ .mark "\x7d" :: following)))) := by
      simp [functionTokens]
    refine eventually_of_succ ?_
    filter_upwards [readStatements_items following each ih] with fuel areItems
    rw [tokens, readPrimary]
    cases isGenerator <;> cases name <;> simp [expect_cons, readNames_names, areItems]
  | enclosed inner ih =>
    intro following
    refine eventually_of_succ ?_
    filter_upwards [ih (.mark ")" :: following) (stops_cons (by decide))] with fuel isRead
    simp only [List.append_assoc, List.cons_append, List.nil_append]
    rw [readPrimary, isRead]
    simp only [Option.bind_eq_bind, Option.bind_some, expect_cons]
    rfl

/-- A sequence of tokens is a clause of a kind for at most one tree. -/
theorem Forms.unique {clause : Clause} {tokens : List Token} {tree tree' : Node}
    (forms : Forms clause tokens tree) (forms' : Forms clause tokens tree') : tree = tree' := by
  have read := forms.isParsed
  have read' := forms'.isParsed
  cases clause with
  | statement shut => cases eq_of_eventually (read [] fun _ => nofun) (read' [] fun _ => nofun); rfl
  | expression => cases eq_of_eventually (read [] stops_nil) (read' [] stops_nil); rfl
  | access called =>
    have ended (tree : Node) : ∀ᶠ fuel in atTop, readSuffixes fuel true tree [] = some (tree, []) :=
      readSuffixes_of_stops fun _ isHead => nomatch isHead
    cases eq_of_eventually (read true [] _ (fun _ => rfl) (ended tree))
      (read' true [] _ (fun _ => rfl) (ended tree'))
    rfl
  | primary => cases eq_of_eventually (read []) (read' []); rfl

end Resumable.Script
