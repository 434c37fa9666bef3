import Resumable.Proofs.Parentheses
import Resumable.Proofs.StatementParser

/-!
# The tokens of printed statements

`Node.tokens` are the tokens that are written for a statement or an expression, with the parentheses that its
places add.  The text of a statement is these tokens (`Script.Writes`), whatever follows it; that of an
expression is, where a word would end behind it.

Statements are written on several lines.  For the grammar the end of a line is a blank, as long as no semicolon
is put there by itself.  A line ends only behind a semicolon or a brace here, where none is put
(`Script.EndsLines`).
-/

namespace Resumable

open Script

/-! ## The tokens of a tree -/

namespace Script

/-- The tokens of a part in a place, which encloses a part that binds less tightly than it asks for. -/
def Token.placed (least : Nat) (part : Node × List Token) : List Token :=
  if Precedence.ofKind part.1.kind < least then [.mark "("] ++ part.2 ++ [.mark ")"] else part.2

/-- The tokens of items with commas between them. -/
def Token.listed (parts : List (Node × List Token)) : List Token :=
  commas (parts.map (Token.placed (Precedence.comma + 1)))

/-- The tokens of a part that may be absent. -/
def Token.ifAny : Option (Node × List Token) → List Token
  | none => []
  | some part => part.2

end Script

/-- The tokens that are written for a kind. -/
def Kind.tokensOf : Kind (Node × List Token) → List Token
  | .block statements => [.mark "\x7b"] ++ statements.flatMap Prod.snd ++ [.mark "\x7d"]
  | .expressionStatement expression => expression.2 ++ [.mark ";"]
  | .ifStatement condition thenBranch none =>
    [.word "if", .mark "("] ++ condition.2 ++ [.mark ")"] ++ thenBranch.2
  | .ifStatement condition thenBranch (some elseBranch) =>
    [.word "if", .mark "("] ++ condition.2 ++ [.mark ")"] ++ thenBranch.2 ++ ([.word "else"] ++ elseBranch.2)
  | .whileStatement condition body => [.word "while", .mark "("] ++ condition.2 ++ [.mark ")"] ++ body.2
  | .doWhileStatement body condition =>
    [.word "do"] ++ body.2 ++ [.word "while", .mark "("] ++ condition.2 ++ [.mark ")", .mark ";"]
  | .forStatement initializer condition incrementor body =>
    [.word "for", .mark "("] ++ Token.ifAny initializer ++ [.mark ";"] ++ Token.ifAny condition ++
      [.mark ";"] ++ Token.ifAny incrementor ++ [.mark ")"] ++ body.2
  | .labeledStatement label statement => [.word label, .mark ":"] ++ statement.2
  | .returnStatement value => [.word "return"] ++ Token.ifAny value ++ [.mark ";"]
  | .identifier name => [.word name]
  | .objectLiteral properties => [.mark "\x7b"] ++ commas (properties.map Prod.snd) ++ [.mark "\x7d"]
  | .propertyAssignment name value => [.word name, .mark ":"] ++ Token.placed (Precedence.comma + 1) value
  | .functionExpression name parameters body isGenerator =>
    [.word "function"] ++ (if isGenerator then [.mark "*"] else []) ++ name.toList.map .word ++ [.mark "("] ++
      Token.listed parameters ++ [.mark ")"] ++ body.2
  | .callExpression callee arguments =>
    Token.placed Precedence.member callee ++ [.mark "("] ++ Token.listed arguments ++ [.mark ")"]
  | .newExpression callee arguments =>
    [.word "new"] ++ Token.placed Precedence.member callee ++ [.mark "("] ++ Token.listed arguments ++
      [.mark ")"]
  | .propertyAccess object name => Token.placed Precedence.member object ++ [.mark ".", .word name]
  | .elementAccess object index =>
    Token.placed Precedence.member object ++ [.mark "["] ++ index.2 ++ [.mark "]"]
  | .binaryExpression .assign left right =>
    Token.placed (Precedence.assignment + 1) left ++ [.mark "="] ++ Token.placed Precedence.yield right
  | _ => []

namespace Node

/-- The tokens that are written for a statement or an expression. -/
def tokens : Node → List Token := para fun _ parts => parts.tokensOf

theorem tokens_eq (node : Node) :
    node.tokens = (node.kind.map fun child => (child, child.tokens)).tokensOf := by
  unfold tokens
  rw [para_eq]

end Node

namespace Script

/-! ## Lines -/

/-- The text on one line. -/
def unbroken (text : List Char) : List Char := text.map fun c => if c = '\n' then ' ' else c

/-- A line ends only behind a semicolon or a brace. -/
def EndsLines (text : List Char) : Prop :=
  ∀ before behind, text = before ++ '\n' :: behind → ∃ c ∈ before.getLast?, c ∈ [';', '\x7b', '\x7d']

/-- The text is a clause of the kind that stands for the tree. -/
def Clause.Reads (clause : Clause) (alphabet : Alphabet) (text : String) (tree : Node) : Prop :=
  EndsLines text.toList ∧ ∃ tokens, Scans alphabet (unbroken text.toList) tokens ∧ Forms clause tokens tree

/-- A text is read as one tree at most. -/
theorem Clause.Reads.unique {clause : Clause} {alphabet : Alphabet} {text : String} {tree tree' : Node}
    (reads : clause.Reads alphabet text tree) (reads' : clause.Reads alphabet text tree') : tree = tree' := by
  obtain ⟨-, tokens, scans, forms⟩ := reads
  obtain ⟨-, tokens', scans', forms'⟩ := reads'
  obtain rfl := scans.unique scans'
  exact forms.unique forms'

/-- A text stands for a tree and nothing else if it stands for the tree. -/
theorem Clause.Reads.forall_iff {clause : Clause} {alphabet : Alphabet} {text : String} {own : Node} :
    (∀ tree, clause.Reads alphabet text tree ↔ tree = own) ↔ clause.Reads alphabet text own := by
  refine ⟨fun each => (each own).2 rfl, fun reads tree => ⟨fun others => others.unique reads, ?_⟩⟩
  rintro rfl
  exact reads

theorem endsLines_of_notMem {text : List Char} (notMem : '\n' ∉ text) : EndsLines text := by
  rintro before behind rfl
  exact absurd (List.mem_append_right _ (.head _)) notMem

theorem EndsLines.append {first second : List Char} (endsLines : EndsLines first)
    (endsLines' : EndsLines second) :
    EndsLines (first ++ second) := by
  intro before behind whole
  rcases List.append_eq_append_iff.1 whole with ⟨middle, rfl, isSecond⟩ | ⟨middle, rfl, isRest⟩
  · obtain ⟨c, isLast, closes⟩ := endsLines' middle behind isSecond
    exact ⟨c, by rw [List.getLast?_append, isLast]; rfl, closes⟩
  · cases middle with
    | nil =>
      obtain ⟨c, isLast, -⟩ := endsLines' [] behind isRest.symm
      cases isLast
    | cons c middle =>
      cases isRest
      exact endsLines before middle rfl

/-- A line that ends with a semicolon or a brace. -/
theorem EndsLines.line {text : List Char} (endsLines : EndsLines text)
    (closes : ∃ c ∈ text.getLast?, c ∈ [';', '\x7b', '\x7d']) : EndsLines (text ++ ['\n']) := by
  intro before behind whole
  rcases List.append_eq_append_iff.1 whole with ⟨middle, rfl, isSecond⟩ | ⟨middle, rfl, isRest⟩
  · cases middle with
    | nil => rwa [List.append_nil]
    | cons c middle => simp at isSecond
  · cases middle with
    | nil => rwa [List.append_nil] at closes
    | cons c middle =>
      cases isRest
      exact endsLines before middle rfl

/-! ## Texts of tokens -/

/-- The text is the tokens, whatever follows it if it is closed, and where a word would end if not. -/
def Writes (alphabet : Alphabet) (closed : Bool) (tokens : List Token) (text : String) : Prop :=
  EndsLines text.toList ∧ ∀ following more, (closed = false → alphabet.Breaks following) →
    Scans alphabet following more → Scans alphabet (unbroken text.toList ++ following) (tokens ++ more)

/-- The text begins, and no word goes on with it. -/
def isApart (text : List Char) : Bool := text.head?.any fun c => c.toNat < 128 && !isAsciiPart c

theorem isApart.append {text : List Char} (apart : isApart text = true) (behind : List Char) :
    isApart (text ++ behind) = true := by
  cases text with
  | nil => cases apart
  | cons c text => exact apart

theorem isApart.breaks {alphabet : Alphabet} {text : List Char} (apart : isApart text = true)
    (following : List Char) : alphabet.Breaks (text ++ following) := by
  cases text with
  | nil => cases apart
  | cons c text => exact Alphabet.breaks_cons (by simpa [isApart] using apart)

/-- The token ends in front of the text, or of any text if that is empty. -/
def endsBefore (behind : List Char) : Token → Bool
  | .word name => name.toList ≠ [] && name.toList.all isLetter && isApart behind
  | .mark mark => marks.contains mark && (continuations mark).all fun c => behind.head?.any (· ≠ c)

/-- The text is the tokens with spaces between them, in front of any text. -/
def isSpelling : List Token → List Char → Bool
  | [], text => text.all (· = ' ')
  | token :: rest, text =>
    let begun := text.dropWhile (· = ' ')
    let behind := begun.drop token.text.length
    token.text.toList.isPrefixOf begun && endsBefore behind token && isSpelling rest behind

namespace Writes

variable {alphabet : Alphabet} {closed closed' : Bool} {tokens others : List Token} {text behind : String}

theorem toOpen (writes : Writes alphabet closed tokens text) : Writes alphabet false tokens text :=
  ⟨writes.1, fun following more breaks => writes.2 following more fun _ => breaks rfl⟩

theorem append (first : Writes alphabet true tokens text) (second : Writes alphabet closed others behind) :
    Writes alphabet closed (tokens ++ others) (text ++ behind) := by
  refine ⟨by rw [String.toList_append]; exact first.1.append second.1, fun following more breaks scanned => ?_⟩
  rw [String.toList_append, unbroken, List.map_append, List.append_assoc, List.append_assoc]
  exact first.2 _ _ nofun (second.2 _ _ breaks scanned)

theorem nil : Writes alphabet true [] "" := ⟨endsLines_of_notMem nofun, fun _ _ _ scanned => scanned⟩

theorem unbroken_of_notMem {text : List Char} (notMem : '\n' ∉ text) : unbroken text = text := by
  unfold unbroken
  conv_rhs => rw [← List.map_id text]
  refine List.map_congr_left fun c mem => if_neg ?_
  rintro rfl
  exact notMem mem

theorem of_oneLine (notMem : '\n' ∉ text.toList)
    (scans : ∀ following more, (closed = false → alphabet.Breaks following) → Scans alphabet following more →
      Scans alphabet (text.toList ++ following) (tokens ++ more)) : Writes alphabet closed tokens text := by
  refine ⟨endsLines_of_notMem notMem, ?_⟩
  rwa [unbroken_of_notMem notMem]

theorem word {name : String} (isWord : alphabet.IsWord name) : Writes alphabet false [.word name] name := by
  refine of_oneLine (fun mem => ?_) fun following more breaks scanned => .word isWord (breaks rfl) scanned
  obtain ⟨c, cs, isName, -, parts⟩ := isWord.exists_cons
  rw [isName] at mem
  cases (parts _ mem).symm.trans (alphabet.isPart_of_ascii (by decide))

/-- The name of a property behind its point. -/
theorem name {name : String} (isWord : alphabet.IsWord name) :
    Writes alphabet false [.mark ".", .word name] ("." ++ name) := by
  obtain ⟨endsLines, scans⟩ := word isWord
  obtain ⟨c, cs, isName, other⟩ := isWord.exists_head_ne (c := '.') (by decide)
  refine ⟨?_, fun following more breaks scanned => ?_⟩
  · rw [String.toList_append]
    exact (endsLines_of_notMem (by decide)).append endsLines
  · rw [String.toList_append, unbroken, List.map_append, List.append_assoc]
    refine Scans.mark_of_next (show "." ∈ marks by decide) (fun d isHead => ?_)
      (scans following more breaks scanned)
    rw [isName, List.map_cons] at isHead
    rw [show continuations "." = ['.'] by decide, List.mem_singleton]
    rintro rfl
    have same : (if c = '\n' then ' ' else c) = '.' := Option.some.inj isHead
    split at same
    · cases same
    · exact other same

theorem scans_spaces {spaces following : List Char} {more : List Token} (all : ∀ c ∈ spaces, c = ' ')
    (scanned : Scans alphabet following more) : Scans alphabet (spaces ++ following) more := by
  induction spaces with
  | nil => exact scanned
  | cons c spaces ih =>
    obtain ⟨rfl, others⟩ := List.forall_mem_cons.1 all
    exact .blank (by decide) (ih others)

theorem scans_spelling {tokens : List Token} {text following : List Char} {more : List Token}
    (spelling : isSpelling tokens text = true) (scanned : Scans alphabet following more) :
    Scans alphabet (text ++ following) (tokens ++ more) := by
  induction tokens generalizing text with
  | nil => exact scans_spaces (by simpa [isSpelling] using spelling) scanned
  | cons token rest ih =>
    rw [isSpelling] at spelling
    simp only [Bool.and_eq_true, List.isPrefixOf_iff_prefix] at spelling
    obtain ⟨⟨⟨behind, isBegun⟩, ends⟩, spelling⟩ := spelling
    have isSpace : ∀ c ∈ text.takeWhile (· = ' '), c = ' ' := fun c mem =>
      of_decide_eq_true (List.all_eq_true.1 List.all_takeWhile c mem)
    rw [← List.takeWhile_append_dropWhile (p := (· = ' ')) (l := text), List.append_assoc]
    refine scans_spaces isSpace ?_
    rw [← isBegun] at ends spelling ⊢
    rw [← String.length_toList, List.drop_left] at ends spelling
    rw [List.append_assoc]
    have scanned := ih spelling
    cases token with
    | word name =>
      simp only [endsBefore, Bool.and_eq_true, decide_eq_true_eq] at ends
      obtain ⟨⟨notEmpty, letters⟩, apart⟩ := ends
      exact .word (Alphabet.isWord_of_letters notEmpty letters) (isApart.breaks apart _) scanned
    | mark mark =>
      simp only [endsBefore, Bool.and_eq_true, List.contains_eq_mem, decide_eq_true_eq,
        List.all_eq_true] at ends
      refine .mark_of_next ends.1 (fun c isHead goesOn => ?_) scanned
      obtain ⟨d, isFirst, other⟩ := (Option.any_eq_true _ _).1 (ends.2 c goesOn)
      obtain ⟨ds, rfl⟩ := List.head?_eq_some_iff.1 isFirst
      cases isHead
      exact of_decide_eq_true other rfl

/-- A text of the language alone. -/
theorem spelling (tokens : List Token) (text : String)
    (spells : (text.toList.all (· ≠ '\n') && isSpelling tokens text.toList) = true) :
    Writes alphabet true tokens text := by
  obtain ⟨oneLine, spelling⟩ := Bool.and_eq_true_iff.1 spells
  refine of_oneLine (fun mem => ?_) fun _ _ _ scanned => scans_spelling spelling scanned
  exact of_decide_eq_true (List.all_eq_true.1 oneLine _ mem) rfl

theorem before (first : Writes alphabet closed tokens text) (second : Writes alphabet closed' others behind)
    (apart : isApart behind.toList = true) : Writes alphabet closed' (tokens ++ others) (text ++ behind) := by
  refine ⟨by rw [String.toList_append]; exact first.1.append second.1, fun following more breaks scanned => ?_⟩
  rw [String.toList_append, unbroken, List.map_append, List.append_assoc, List.append_assoc]
  refine first.2 _ _ (fun _ => isApart.breaks ?_ _) (second.2 _ _ breaks scanned)
  generalize behind.toList = cs at apart
  cases cs with
  | nil => cases apart
  | cons c cs =>
    rw [List.map_cons]
    split
    · rfl
    · exact apart

/-- A text with a text of the language behind it. -/
theorem spell (first : Writes alphabet closed tokens text) (others : List Token) (behind : String)
    (spells : (behind.toList.all (· ≠ '\n') && isSpelling others behind.toList) = true)
    (apart : isApart behind.toList = true) : Writes alphabet true (tokens ++ others) (text ++ behind) :=
  first.before (spelling others behind spells) apart

/-- A text in parentheses. -/
theorem enclosed (writes : Writes alphabet closed tokens text) :
    Writes alphabet true ([.mark "("] ++ tokens ++ [.mark ")"]) ("(" ++ text ++ ")") :=
  ((spelling [.mark "("] "(" rfl).append writes).spell [.mark ")"] ")" rfl rfl

/-- Texts with commas between them. -/
theorem list {α : Type} {items : List α} {tokensOf : α → List Token} {textOf : α → String}
    (each : ∀ item ∈ items, Writes alphabet false (tokensOf item) (textOf item)) :
    Writes alphabet false (commas (items.map tokensOf)) (String.intercalate ", " (items.map textOf)) := by
  induction items with
  | nil => exact nil.toOpen
  | cons item items ih =>
    obtain ⟨first, each⟩ := List.forall_mem_cons.1 each
    cases items with
    | nil =>
      rw [List.map_singleton, List.map_singleton, String.intercalate_singleton]
      exact first
    | cons next items =>
      have rest := (first.spell [.mark ","] ", " rfl rfl).append (ih each)
      rw [List.append_assoc] at rest
      exact (String.intercalate_cons_cons ▸ rest :)

end Writes

/-- A text is read as what its tokens stand for. -/
theorem Writes.reads_iff {alphabet : Alphabet} {closed : Bool} {clause : Clause} {tokens : List Token}
    {text : String} {tree : Node} (writes : Writes alphabet closed tokens text) :
    clause.Reads alphabet text tree ↔ Forms clause tokens tree := by
  have scans := writes.2 [] [] (fun _ => alphabet.breaks_nil) .done
  rw [List.append_nil, List.append_nil] at scans
  constructor
  · rintro ⟨-, tokens', scans', forms⟩
    rwa [scans'.unique scans] at forms
  · exact fun forms => ⟨writes.1, tokens, scans, forms⟩

/-- A statement ends with a semicolon or a brace. -/
def EndsStatement (text : String) : Prop := ∃ c ∈ text.toList.getLast?, c ∈ [';', '\x7d']

theorem EndsStatement.append {text : String} (ends : EndsStatement text) (before : String) :
    EndsStatement (before ++ text) := by
  obtain ⟨c, isLast, closes⟩ := ends
  refine ⟨c, ?_, closes⟩
  rw [String.toList_append, List.getLast?_append, isLast]
  rfl

/-- The text of an expression by itself is its tokens. -/
structure IsShown (alphabet : Alphabet) (node : Node) : Prop where
  isExpression : node.form.isExpression = true
  writes : ∀ level, Writes alphabet false node.tokens (node.textAt level)

/-- The text of a property is its tokens. -/
structure IsMember (alphabet : Alphabet) (node : Node) : Prop where
  isProperty : node.form = .propertyAssignment
  writes : ∀ level, Writes alphabet false node.tokens (node.textAt level)

/-- The text of a statement is its tokens, in the middle of a line and on lines of its own. -/
structure IsLine (alphabet : Alphabet) (node : Node) : Prop where
  writes : ∀ level, Writes alphabet true node.tokens (node.textAt level)
  ends : ∀ level, EndsStatement (node.textAt level)
  inline : ∀ level, Part.inline level (node, node.textAt) = node.textAt level
  statement : ∀ level, Part.statement level (node, node.textAt) = indentation level ++ node.textAt level ++ "\n"

section Parts

variable {alphabet : Alphabet} {node : Node} {nodes : List Node} {level : Nat}

/-! ### Expressions in places -/

theorem IsShown.placed (isShown : IsShown alphabet node) (least level : Nat) :
    Writes alphabet false (Token.placed least (node, node.tokens)) (shown least level node) := by
  rw [shown_eq isShown.isExpression]
  unfold Token.placed
  split
  · exact (isShown.writes level).enclosed.toOpen
  · exact isShown.writes level

/-- No parentheses stand around an expression that may be of any kind. -/
theorem IsShown.alone (isShown : IsShown alphabet node) (level : Nat) :
    Writes alphabet false node.tokens (shown 0 level node) :=
  isShown.placed 0 level

theorem IsShown.loopHead (isShown : IsShown alphabet node) (level : Nat) :
    Part.loopHead level (node, node.textAt) = shown 0 level node := by
  refine if_neg fun isDeclaration => ?_
  have isExpression := isShown.isExpression
  rw [isDeclaration] at isExpression
  cases isExpression

theorem Writes.arguments (level : Nat) (each : ∀ item ∈ nodes, IsShown alphabet item) :
    Writes alphabet false (Token.listed (nodes.map fun item => (item, item.tokens)))
      (Part.list level (nodes.map fun item => (item, item.textAt))) := by
  rw [list_eq, Token.listed, List.map_map]
  exact Writes.list fun item mem => (each item mem).placed _ _

theorem Writes.optional {part : Option Node} {lead : String} (level : Nat) (isLead : lead = "" ∨ lead = " ")
    (isShown : ∀ inner ∈ part, IsShown alphabet inner) :
    Writes alphabet false (Token.ifAny (part.map fun inner => (inner, inner.tokens)))
      (Part.optional lead (Part.expression 0 level) (part.map fun inner => (inner, inner.textAt))) := by
  cases part with
  | none => exact Writes.nil.toOpen
  | some inner =>
    have before : Writes alphabet true [] lead := by
      rcases isLead with rfl | rfl
      · exact .nil
      · exact .spelling [] " " rfl
    exact before.append ((isShown inner rfl).alone level)

theorem IsMember.property (isMember : IsMember alphabet node) (level : Nat) :
    Part.property level (node, node.textAt) = node.textAt level :=
  if_pos (.inl isMember.isProperty)

/-! ### Statements on lines -/

theorem Writes.indentation (level : Nat) : Writes alphabet true [] (indentation level) := by
  unfold Resumable.indentation
  refine .spelling [] _ ?_
  rw [String.toList_ofList, isSpelling]
  simp

/-- A line that ends with a semicolon or a brace. -/
theorem Writes.line {tokens : List Token} {text : String} (writes : Writes alphabet true tokens text)
    (closes : ∃ c ∈ text.toList.getLast?, c ∈ [';', '\x7b', '\x7d']) :
    Writes alphabet true tokens (text ++ "\n") := by
  refine ⟨?_, fun following more _ scanned => ?_⟩
  · rw [String.toList_append]
    exact writes.1.line closes
  · rw [String.toList_append, unbroken, List.map_append, List.append_assoc]
    exact writes.2 _ _ nofun (.blank (by decide) scanned)

theorem IsLine.writes_statement (isLine : IsLine alphabet node) (level : Nat) :
    Writes alphabet true node.tokens (Part.statement level (node, node.textAt)) := by
  obtain ⟨c, isLast, closes⟩ := (isLine.ends level).append (Resumable.indentation level)
  rw [isLine.statement]
  exact ((Writes.indentation level).append (isLine.writes level)).line ⟨c, isLast, by
    rcases List.mem_cons.1 closes with rfl | closes
    · decide
    · rw [List.mem_singleton.1 closes]
      decide⟩

theorem Writes.statements (level : Nat) (each : ∀ statement ∈ nodes, IsLine alphabet statement) :
    Writes alphabet true (nodes.flatMap Node.tokens)
      (Part.statements level (nodes.map fun statement => (statement, statement.textAt))) := by
  induction nodes with
  | nil => exact .nil
  | cons statement nodes ih =>
    obtain ⟨first, each⟩ := List.forall_mem_cons.1 each
    have rest := (first.writes_statement level).append (ih each)
    unfold Part.statements at rest ⊢
    rw [List.map_cons, List.map_cons, String.join_cons, List.flatMap_cons]
    exact rest

end Parts

/-! ## Forms of nodes -/

section Nodes

variable {alphabet : Alphabet} {span : Span}

/-! ### Expressions -/

namespace IsShown

theorem identifier {name : String} (isWord : alphabet.IsWord name) :
    IsShown alphabet ⟨span, .identifier name⟩ :=
  ⟨rfl, fun _ => .word isWord⟩

theorem property {object : Node} {name : String} (isObject : IsShown alphabet object)
    (isWord : alphabet.IsWord name) : IsShown alphabet ⟨span, .propertyAccess object name⟩ := by
  refine ⟨rfl, fun level => ?_⟩
  have apart : isApart ("." ++ name).toList = true := by
    rw [String.toList_append]
    exact isApart.append rfl _
  have text := (isObject.placed Precedence.member level).before (.name isWord) apart
  rwa [← String.append_assoc] at text

theorem element {object index : Node} (isObject : IsShown alphabet object) (isIndex : IsShown alphabet index) :
    IsShown alphabet ⟨span, .elementAccess object index⟩ := by
  refine ⟨rfl, fun level => ?_⟩
  have opened := (isObject.placed Precedence.member level).spell [.mark "["] "[" rfl rfl
  exact ((opened.append (isIndex.alone level)).spell [.mark "]"] "]" rfl rfl).toOpen

theorem call {callee : Node} {arguments : List Node} (isCallee : IsShown alphabet callee)
    (each : ∀ item ∈ arguments, IsShown alphabet item) :
    IsShown alphabet ⟨span, .callExpression callee arguments⟩ := by
  refine ⟨rfl, fun level => ?_⟩
  rw [Node.tokens_eq, Node.textAt_eq]
  have opened := (isCallee.placed Precedence.member level).spell [.mark "("] "(" rfl rfl
  exact ((opened.append (.arguments level each)).spell [.mark ")"] ")" rfl rfl).toOpen

theorem new {callee : Node} {arguments : List Node} (isCallee : IsShown alphabet callee)
    (each : ∀ item ∈ arguments, IsShown alphabet item) :
    IsShown alphabet ⟨span, .newExpression callee arguments⟩ := by
  refine ⟨rfl, fun level => ?_⟩
  rw [Node.tokens_eq, Node.textAt_eq]
  have begun := (Writes.spelling [.word "new"] "new " rfl).append (isCallee.placed Precedence.member level)
  exact (((begun.spell [.mark "("] "(" rfl rfl).append (.arguments level each)).spell [.mark ")"] ")" rfl rfl).toOpen

theorem assign {target value : Node} (isTarget : IsShown alphabet target) (isValue : IsShown alphabet value) :
    IsShown alphabet ⟨span, .binaryExpression .assign target value⟩ := by
  refine ⟨rfl, fun level => ?_⟩
  have begun := (isTarget.placed (Precedence.assignment + 1) level).spell [.mark "="] " = " rfl rfl
  exact begun.append (isValue.placed Precedence.yield level)

theorem object {properties : List Node} (each : ∀ property ∈ properties, IsMember alphabet property) :
    IsShown alphabet ⟨span, .objectLiteral properties⟩ := by
  refine ⟨rfl, fun level => ?_⟩
  rw [Node.tokens_eq, Node.textAt_eq]
  cases properties with
  | nil => exact (Writes.spelling [.mark "\x7b", .mark "\x7d"] "\x7b\x7d" rfl).toOpen
  | cons property properties =>
    have listed := Writes.list fun item mem => (each item mem).writes level
    rw [← List.map_congr_left fun item mem => (each item mem).property level] at listed
    have begun := (Writes.spelling [.mark "\x7b"] "\x7b " rfl).append listed
    have text := begun.spell [.mark "\x7d"] " \x7d" rfl rfl
    show Writes alphabet false ([_] ++ commas (((property :: properties).map _).map _) ++ [_])
      (_ ++ String.intercalate ", " (((property :: properties).map _).map _) ++ _)
    rw [List.map_map, List.map_map]
    exact text.toOpen

theorem function {name : Option String} {parameters : List Node} {body : Node} {isGenerator : Bool}
    (isNamed : ∀ word ∈ name, alphabet.IsWord word)
    (each : ∀ parameter ∈ parameters, IsShown alphabet parameter)
    (isBody : IsLine alphabet body) :
    IsShown alphabet ⟨span, .functionExpression name parameters body isGenerator⟩ := by
  refine ⟨rfl, fun level => ?_⟩
  rw [Node.tokens_eq, Node.textAt_eq]
  have begun : Writes alphabet true ([.word "function"] ++ (if isGenerator then [.mark "*"] else []))
      (if isGenerator then "function* " else "function ") := by
    cases isGenerator
    · exact .spelling [.word "function"] _ rfl
    · exact .spelling [.word "function", .mark "*"] _ rfl
  have named : Writes alphabet false (name.toList.map .word) (name.getD "") := by
    cases name with
    | none => exact Writes.nil.toOpen
    | some name => exact .word (isNamed name rfl)
  have listed := Writes.arguments level each
  have opened := (begun.append named).spell [.mark "("] "(" rfl rfl
  have head := (opened.append listed).spell [.mark ")"] ") " rfl rfl
  have text := head.append (isBody.writes level)
  rw [← isBody.inline level] at text
  exact text.toOpen

end IsShown

theorem IsMember.assignment {name : String} {value : Node} (isWord : alphabet.IsWord name)
    (isValue : IsShown alphabet value) : IsMember alphabet ⟨span, .propertyAssignment name value⟩ := by
  refine ⟨rfl, fun level => ?_⟩
  exact ((Writes.word isWord).spell [.mark ":"] ": " rfl rfl).append (isValue.placed _ level)

/-! ### Statements -/

namespace IsLine

theorem block {statements : List Node} (each : ∀ statement ∈ statements, IsLine alphabet statement) :
    IsLine alphabet ⟨span, .block statements⟩ := by
  refine ⟨fun level => ?_, fun level => ?_, fun level => rfl, fun level => rfl⟩
  · rw [Node.tokens_eq, Node.textAt_eq]
    cases statements with
    | nil => exact Writes.spelling [.mark "\x7b", .mark "\x7d"] "\x7b \x7d" rfl
    | cons statement statements =>
      have brace : Writes alphabet true [.mark "\x7b"] "\x7b" := .spelling _ _ rfl
      have opening := brace.line ⟨_, rfl, by decide⟩
      have inner := (opening.append (.statements (level + 1) each)).append (.indentation level)
      have text := inner.append (.spelling [.mark "\x7d"] "\x7d" rfl)
      rw [List.append_nil] at text
      show Writes alphabet true ([_] ++ ((statement :: statements).map _).flatMap _ ++ [_]) _
      rw [List.flatMap_map]
      exact text
  · rw [Node.textAt_eq]
    cases statements with
    | nil => exact (⟨_, rfl, by decide⟩ : EndsStatement "\x7b \x7d")
    | cons statement statements => exact EndsStatement.append ⟨_, rfl, by decide⟩ _

theorem expressionStatement {expression : Node} (isShown : IsShown alphabet expression) :
    IsLine alphabet ⟨span, .expressionStatement expression⟩ := by
  refine ⟨fun level => ?_, fun level => ?_, fun level => rfl, fun level => rfl⟩
  · exact (isShown.alone level).spell [.mark ";"] ";" rfl rfl
  · exact EndsStatement.append ⟨_, rfl, by decide⟩ (shown 0 level expression)

theorem ifThen {condition thenBranch : Node} (isCondition : IsShown alphabet condition)
    (isThen : IsLine alphabet thenBranch) :
    IsLine alphabet ⟨span, .ifStatement condition thenBranch none⟩ := by
  have text (level : Nat) : Node.textAt ⟨span, .ifStatement condition thenBranch none⟩ level =
      "if (" ++ shown 0 level condition ++ ") " ++ thenBranch.textAt level := by
    rw [← isThen.inline]
    exact String.append_empty
  refine ⟨fun level => ?_, fun level => ?_, fun level => rfl, fun level => rfl⟩
  · rw [text]
    have begun := (Writes.spelling [.word "if", .mark "("] "if (" rfl).append (isCondition.alone level)
    exact (begun.spell [.mark ")"] ") " rfl rfl).append (isThen.writes level)
  · rw [text]
    exact (isThen.ends level).append _

theorem ifElse {condition thenBranch elseBranch : Node} (isCondition : IsShown alphabet condition)
    (isThen : IsLine alphabet thenBranch) (isElse : IsLine alphabet elseBranch) :
    IsLine alphabet ⟨span, .ifStatement condition thenBranch (some elseBranch)⟩ := by
  have text (level : Nat) : Node.textAt ⟨span, .ifStatement condition thenBranch (some elseBranch)⟩ level =
      "if (" ++ shown 0 level condition ++ ") " ++ thenBranch.textAt level ++
        (" else " ++ elseBranch.textAt level) := by
    rw [← isThen.inline, ← isElse.inline]
    rfl
  refine ⟨fun level => ?_, fun level => ?_, fun level => rfl, fun level => rfl⟩
  · rw [text]
    have begun := (Writes.spelling [.word "if", .mark "("] "if (" rfl).append (isCondition.alone level)
    have first := (begun.spell [.mark ")"] ") " rfl rfl).append (isThen.writes level)
    exact first.append ((Writes.spelling [.word "else"] " else " rfl).append (isElse.writes level))
  · rw [text]
    exact ((isElse.ends level).append _).append _

theorem whileStatement {condition body : Node} (isCondition : IsShown alphabet condition)
    (isBody : IsLine alphabet body) : IsLine alphabet ⟨span, .whileStatement condition body⟩ := by
  have text (level : Nat) : Node.textAt ⟨span, .whileStatement condition body⟩ level =
      "while (" ++ shown 0 level condition ++ ") " ++ body.textAt level := by
    rw [← isBody.inline]
    rfl
  refine ⟨fun level => ?_, fun level => ?_, fun level => rfl, fun level => rfl⟩
  · rw [text]
    have begun := (Writes.spelling [.word "while", .mark "("] "while (" rfl).append (isCondition.alone level)
    exact (begun.spell [.mark ")"] ") " rfl rfl).append (isBody.writes level)
  · rw [text]
    exact (isBody.ends level).append _

theorem doWhileStatement {body condition : Node} (isBody : IsLine alphabet body)
    (isCondition : IsShown alphabet condition) : IsLine alphabet ⟨span, .doWhileStatement body condition⟩ := by
  have text (level : Nat) : Node.textAt ⟨span, .doWhileStatement body condition⟩ level =
      "do " ++ body.textAt level ++ " while (" ++ shown 0 level condition ++ ");" := by
    rw [← isBody.inline]
    rfl
  refine ⟨fun level => ?_, fun level => ?_, fun level => rfl, fun level => rfl⟩
  · rw [text]
    have begun := (Writes.spelling [.word "do"] "do " rfl).append (isBody.writes level)
    have head := (begun.spell [.word "while", .mark "("] " while (" rfl rfl).append (isCondition.alone level)
    have closed := head.spell [.mark ")", .mark ";"] ");" rfl rfl
    exact closed
  · rw [text]
    exact EndsStatement.append ⟨_, rfl, by decide⟩ _

theorem forStatement {initializer condition incrementor : Option Node} {body : Node}
    (isInitializer : ∀ part ∈ initializer, IsShown alphabet part)
    (isCondition : ∀ part ∈ condition, IsShown alphabet part)
    (isIncrementor : ∀ part ∈ incrementor, IsShown alphabet part) (isBody : IsLine alphabet body) :
    IsLine alphabet ⟨span, .forStatement initializer condition incrementor body⟩ := by
  have text (level : Nat) : Node.textAt ⟨span, .forStatement initializer condition incrementor body⟩ level =
      "for (" ++ Part.optional "" (Part.expression 0 level) (initializer.map fun part => (part, part.textAt)) ++
        ";" ++ Part.optional " " (Part.expression 0 level) (condition.map fun part => (part, part.textAt)) ++
        ";" ++ Part.optional " " (Part.expression 0 level) (incrementor.map fun part => (part, part.textAt)) ++
        ") " ++ body.textAt level := by
    have head : Part.optional "" (Part.loopHead level) (initializer.map fun part => (part, part.textAt)) =
        Part.optional "" (Part.expression 0 level) (initializer.map fun part => (part, part.textAt)) := by
      cases initializer with
      | none => rfl
      | some part => exact congrArg ("" ++ ·) ((isInitializer part rfl).loopHead level)
    rw [← isBody.inline, ← head, Node.textAt_eq]
    rfl
  refine ⟨fun level => ?_, fun level => ?_, fun level => rfl, fun level => rfl⟩
  · rw [text, Node.tokens_eq]
    have first := (Writes.spelling [.word "for", .mark "("] "for (" rfl).append
      (.optional level (.inl rfl) isInitializer)
    have second := (first.spell [.mark ";"] ";" rfl rfl).append
      (.optional level (.inr rfl) isCondition)
    have third := (second.spell [.mark ";"] ";" rfl rfl).append
      (.optional level (.inr rfl) isIncrementor)
    exact (third.spell [.mark ")"] ") " rfl rfl).append (isBody.writes level)
  · rw [text]
    exact (isBody.ends level).append _

theorem labeledStatement {label : String} {statement : Node} (isWord : alphabet.IsWord label)
    (isStatement : IsLine alphabet statement) :
    IsLine alphabet ⟨span, .labeledStatement label statement⟩ := by
  have text (level : Nat) : Node.textAt ⟨span, .labeledStatement label statement⟩ level =
      label ++ ": " ++ statement.textAt level := by
    rw [← isStatement.inline]
    rfl
  refine ⟨fun level => ?_, fun level => ?_, fun level => rfl, fun level => rfl⟩
  · rw [text]
    exact ((Writes.word isWord).spell [.mark ":"] ": " rfl rfl).append (isStatement.writes level)
  · rw [text]
    exact (isStatement.ends level).append _

theorem returnStatement {value : Option Node} (isValue : ∀ part ∈ value, IsShown alphabet part) :
    IsLine alphabet ⟨span, .returnStatement value⟩ := by
  refine ⟨fun level => ?_, fun level => ?_, fun level => rfl, fun level => rfl⟩
  · cases value with
    | none => exact Writes.spelling [.word "return", .mark ";"] "return;" rfl
    | some value =>
      have begun := (Writes.spelling [.word "return"] "return " rfl).append ((isValue value rfl).alone level)
      have text := begun.spell [.mark ";"] ";" rfl rfl
      have before : "return" ++ (" " ++ shown 0 level value) = "return " ++ shown 0 level value :=
        String.append_assoc.symm
      exact (before ▸ text :)
  · exact EndsStatement.append ⟨_, rfl, by decide⟩ _

end IsLine

end Nodes

end Script

end Resumable
