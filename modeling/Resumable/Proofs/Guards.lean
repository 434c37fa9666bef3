import Resumable.Proofs.StatementForms

/-!
# Parentheses that are needed

A tree needs an opening parenthesis right in front of some of the tokens that it is written with: in front of
the object or the function that a statement would begin with otherwise, and at the beginning of what a `new`
constructs if the spine of that reaches a call.  The needs of a tree (`Node.needs`) are in the order of its
tokens other than parentheses.  As the number of these is the same in every text that stands for the tree, each
such text can be held against the needs, and it meets them (`Script.Forms.guarded`).
-/

namespace Resumable

open Script

/-! ## Needs -/

namespace Script

/-- The token is no parenthesis. -/
def Token.isFirm (token : Token) : Bool := token ≠ .mark "(" && token ≠ .mark ")"

/-- The needs, and a parenthesis in front of the first token if that is needed. -/
def sharpen (need : Bool) (needs : List Bool) : List Bool := if need then true :: needs.tail else needs

end Script

/-- The needs of a kind. -/
def Kind.needsOf : Kind (Node × List Bool) → List Bool
  | .block statements => [false] ++ statements.flatMap Prod.snd ++ [false]
  | .expressionStatement expression => sharpen expression.1.isExposed expression.2 ++ [false]
  | .ifStatement condition thenBranch none => [false] ++ condition.2 ++ thenBranch.2
  | .ifStatement condition thenBranch (some elseBranch) =>
    [false] ++ condition.2 ++ thenBranch.2 ++ ([false] ++ elseBranch.2)
  | .whileStatement condition body => [false] ++ condition.2 ++ body.2
  | .doWhileStatement body condition => [false] ++ body.2 ++ [false] ++ condition.2 ++ [false]
  | .forStatement initializer condition incrementor body =>
    [false] ++ initializer.elim [] Prod.snd ++ [false] ++ condition.elim [] Prod.snd ++ [false] ++
      incrementor.elim [] Prod.snd ++ body.2
  | .labeledStatement _ statement => [false, false] ++ statement.2
  | .returnStatement value => [false] ++ value.elim [] Prod.snd ++ [false]
  | .identifier _ => [false]
  | .objectLiteral properties => [false] ++ List.intercalate [false] (properties.map Prod.snd) ++ [false]
  | .propertyAssignment _ value => [false, false] ++ value.2
  | .functionExpression name parameters body isGenerator =>
    [false] ++ (if isGenerator then [false] else []) ++ name.toList.map (fun _ => false) ++
      List.intercalate [false] (parameters.map Prod.snd) ++ body.2
  | .callExpression callee arguments => callee.2 ++ List.intercalate [false] (arguments.map Prod.snd)
  | .newExpression callee arguments =>
    [false] ++ sharpen callee.1.isCalled callee.2 ++ List.intercalate [false] (arguments.map Prod.snd)
  | .propertyAccess object _ => object.2 ++ [false, false]
  | .elementAccess object index => object.2 ++ [false] ++ index.2 ++ [false]
  | .binaryExpression .assign target value => target.2 ++ [false] ++ value.2
  | _ => []

namespace Node

/-- For each token of the tree that is no parenthesis, whether an opening one is needed right in front of it. -/
def needs : Node → List Bool := para fun _ parts => parts.needsOf

theorem needs_eq (node : Node) : node.needs = (node.kind.map fun child => (child, child.needs)).needsOf := by
  unfold needs
  rw [para_eq]

theorem needs_bare (node : Node) : node.bare.needs = node.needs := by
  have same (optional : Option (Node × List Bool)) :
      (optional.map fun part => (part.1.bare, part.2)).elim [] Prod.snd = optional.elim [] Prod.snd := by
    cases optional <;> rfl
  refine para_bare (fun parts => ?_) node
  cases parts with
  | ifStatement condition thenBranch elseBranch => cases elseBranch <;> rfl
  | binaryExpression operator left right => cases operator <;> rfl
  | block statements => simp only [Kind.map, Kind.needsOf, List.flatMap_map]
  | expressionStatement expression => simp only [Kind.map, Kind.needsOf, isExposed_bare]
  | forStatement initializer condition incrementor body => simp only [Kind.map, Kind.needsOf, same]
  | returnStatement value => simp only [Kind.map, Kind.needsOf, same]
  | objectLiteral properties => simp only [Kind.map, Kind.needsOf, List.map_map, Function.comp_def]
  | functionExpression name parameters body isGenerator =>
    simp only [Kind.map, Kind.needsOf, List.map_map, Function.comp_def]
  | callExpression callee arguments => simp only [Kind.map, Kind.needsOf, List.map_map, Function.comp_def]
  | newExpression callee arguments =>
    simp only [Kind.map, Kind.needsOf, isCalled_bare, List.map_map, Function.comp_def]
  | _ => rfl

end Node

namespace Script

/-! ## Tokens that meet needs -/

/-- An opening parenthesis stands right in front of each token that needs one, where `opened` says whether one
stands in front of them all. -/
def Meets : Bool → List Bool → List Token → Prop
  | _, needs, [] => needs = []
  | opened, needs, token :: rest =>
    if token.isFirm then
      ∃ need others, needs = need :: others ∧ (need = true → opened = true) ∧ Meets false others rest
    else Meets (token = .mark "(") needs rest

section Meets

variable {opened need : Bool} {needs others : List Bool} {token : Token} {tokens rest behind : List Token}

theorem Meets.firm (meets : Meets opened (need :: needs) (token :: rest)) (isFirm : token.isFirm = true) :
    (need = true → opened = true) ∧ Meets false needs rest := by
  rw [Meets, if_pos isFirm] at meets
  obtain ⟨_, _, ⟨⟩, met, meets⟩ := meets
  exact ⟨met, meets⟩

theorem Meets.mark (meets : Meets opened needs (token :: rest)) (notFirm : token.isFirm = false) :
    Meets (token = .mark "(") needs rest := by
  rwa [Meets, if_neg (Bool.eq_false_iff.1 notFirm)] at meets

theorem Meets.append (first : Meets opened needs tokens) (second : ∀ opened, Meets opened others behind) :
    Meets opened (needs ++ others) (tokens ++ behind) := by
  induction tokens generalizing opened needs with
  | nil =>
    rw [Meets] at first
    rw [first]
    exact second opened
  | cons token tokens ih =>
    cases isFirm : token.isFirm with
    | true =>
      rw [Meets, if_pos isFirm] at first
      obtain ⟨need, needs, rfl, met, first⟩ := first
      rw [List.cons_append, List.cons_append, Meets, if_pos isFirm]
      exact ⟨need, _, rfl, met, ih first⟩
    | false =>
      rw [List.cons_append, Meets, if_neg (Bool.eq_false_iff.1 isFirm)]
      exact ih (first.mark isFirm)

theorem meets_opened_iff {count : Nat} :
    Meets opened needs (List.replicate (count + 1) (.mark "(") ++ tokens) ↔ Meets true needs tokens := by
  induction count generalizing opened with
  | zero => exact Iff.rfl
  | succ count ih =>
    rw [List.replicate_succ, List.cons_append, Meets, if_neg (by decide)]
    exact ih

/-- The tokens begin with that many parentheses. -/
def OpensWith (count : Nat) (tokens : List Token) : Prop :=
  ∃ token rest, tokens = List.replicate count (.mark "(") ++ token :: rest ∧ token.isFirm = true

theorem OpensWith.append {count : Nat} (opensWith : OpensWith count tokens) (behind : List Token) :
    OpensWith count (tokens ++ behind) := by
  obtain ⟨token, rest, rfl, isFirm⟩ := opensWith
  exact ⟨token, rest ++ behind, by rw [List.append_assoc, List.cons_append], isFirm⟩

/-- The tokens meet the needs, whatever stands in front of them. -/
def Guarded (needs : List Bool) (tokens : List Token) : Prop := ∀ opened, Meets opened needs tokens

namespace Guarded

theorem nil : Guarded [] [] := fun _ => rfl

theorem plain (tokens : List Token) : Guarded ((tokens.filter Token.isFirm).map fun _ => false) tokens := by
  induction tokens with
  | nil => exact nil
  | cons token tokens ih =>
    intro opened
    cases isFirm : token.isFirm with
    | true =>
      rw [List.filter_cons_of_pos isFirm, List.map_cons, Meets, if_pos isFirm]
      exact ⟨false, _, rfl, nofun, ih false⟩
    | false =>
      rw [List.filter_cons_of_neg (Bool.eq_false_iff.1 isFirm), Meets, if_neg (Bool.eq_false_iff.1 isFirm)]
      exact ih _

theorem append (first : Guarded needs tokens) (second : Guarded others behind) :
    Guarded (needs ++ others) (tokens ++ behind) :=
  fun opened => (first opened).append second

/-- Parentheses behind the tokens. -/
theorem closed (first : Guarded needs tokens) (second : Guarded [] behind) :
    Guarded needs (tokens ++ behind) := by
  have both := first.append second
  rwa [List.append_nil] at both

/-- Tokens that begin with a parenthesis meet the need of one. -/
theorem sharpen (guarded : Guarded needs tokens)
    (isOpened : need = true → ∃ count, OpensWith (count + 1) tokens) :
    Guarded (Script.sharpen need needs) tokens := by
  unfold Script.sharpen
  split
  · next isNeeded =>
    obtain ⟨count, token, rest, rfl, isFirm⟩ := isOpened isNeeded
    intro opened
    have meets := guarded opened
    rw [meets_opened_iff, Meets, if_pos isFirm] at meets ⊢
    obtain ⟨need, others, rfl, -, meets⟩ := meets
    exact ⟨true, others, rfl, fun _ => rfl, meets⟩
  · exact guarded

theorem flatMap {items : List (List Token × Node)} (each : ∀ item ∈ items, Guarded item.2.needs item.1) :
    Guarded ((items.map Prod.snd).flatMap Node.needs) (items.flatMap Prod.fst) := by
  induction items with
  | nil => exact nil
  | cons item items ih =>
    obtain ⟨first, each⟩ := List.forall_mem_cons.1 each
    exact first.append (ih each)

theorem commas {α : Type} {items : List α} {needsOf : α → List Bool} {tokensOf : α → List Token}
    (each : ∀ item ∈ items, Guarded (needsOf item) (tokensOf item)) :
    Guarded (List.intercalate [false] (items.map needsOf)) (commas (items.map tokensOf)) := by
  induction items with
  | nil => exact nil
  | cons item items ih =>
    obtain ⟨first, each⟩ := List.forall_mem_cons.1 each
    cases items with
    | nil =>
      simpa [Script.commas] using first
    | cons next items => exact first.append ((plain [.mark ","]).append (ih each))

end Guarded

end Meets

/-! ## How expressions begin -/

/-- How the tokens of an expression begin.  With no parentheses in front, what is exposed begins with an object or a
function, and a call is on the spine only where calls are allowed. -/
def IsHeaded (called : Bool) (tokens : List Token) (tree : Node) : Prop :=
  ∃ count token rest, tokens = List.replicate count (.mark "(") ++ token :: rest ∧ token.isFirm = true ∧
    (count = 0 → (tree.isExposed = true → token = .mark "\x7b" ∨ token = .word "function") ∧
      (tree.isCalled = true → called = true))

theorem IsHeaded.append {called called' : Bool} {tokens : List Token} {tree tree' : Node}
    (isHeaded : IsHeaded called tokens tree) (behind : List Token)
    (isExposed : tree'.isExposed = true → tree.isExposed = true)
    (isCalled : tree'.isCalled = true → called' = true ∨ tree.isCalled = true ∧ called' = called) :
    IsHeaded called' (tokens ++ behind) tree' := by
  obtain ⟨count, token, rest, rfl, isFirm, bare⟩ := isHeaded
  refine ⟨count, token, rest ++ behind, by rw [List.append_assoc, List.cons_append], isFirm, fun none => ?_⟩
  obtain ⟨exposed, calls⟩ := bare none
  refine ⟨fun isExp => exposed (isExposed isExp), fun isCall => ?_⟩
  rcases isCalled isCall with allowed | ⟨wasCalled, rfl⟩
  · exact allowed
  · exact calls wasCalled

def Clause.IsHeaded : Clause → List Token → Node → Prop
  | statement _, _, _ => True
  | expression, tokens, tree => Script.IsHeaded true tokens tree
  | access called, tokens, tree => Script.IsHeaded called tokens tree
  | primary, tokens, tree => Script.IsHeaded false tokens tree

theorem Forms.isHeaded {clause : Clause} {tokens : List Token} {tree : Node}
    (forms : Forms clause tokens tree) :
    clause.IsHeaded tokens tree := by
  induction forms with
  | assign _ _ ih =>
    rw [List.append_assoc]
    exact ih.append _ (fun isExposed => (Bool.and_eq_true_iff.1 isExposed).2) nofun
  | ofAccess _ ih =>
    obtain ⟨count, token, rest, isTokens, isFirm, bare⟩ := ih
    exact ⟨count, token, rest, isTokens, isFirm, fun none => ⟨(bare none).1, fun _ => rfl⟩⟩
  | call _ _ ih =>
    rw [List.append_assoc, List.append_assoc]
    exact ih.append _ (fun isExposed => (Bool.and_eq_true_iff.1 isExposed).2) fun _ => .inl rfl
  | new => exact ⟨0, _, _, rfl, rfl, fun _ => ⟨nofun, nofun⟩⟩
  | property _ ih =>
    exact ih.append _ (fun isExposed => (Bool.and_eq_true_iff.1 isExposed).2)
      fun isCalled => .inr ⟨isCalled, rfl⟩
  | element _ _ ih =>
    rw [List.append_assoc, List.append_assoc]
    exact ih.append _ (fun isExposed => (Bool.and_eq_true_iff.1 isExposed).2)
      fun isCalled => .inr ⟨isCalled, rfl⟩
  | ofPrimary _ ih => exact ih
  | name free => exact ⟨0, _, _, rfl, rfl, fun _ => ⟨nofun, nofun⟩⟩
  | object => exact ⟨0, _, _, rfl, rfl, fun _ => ⟨fun _ => .inl rfl, nofun⟩⟩
  | function => exact ⟨0, _, _, rfl, rfl, fun _ => ⟨fun _ => .inr rfl, nofun⟩⟩
  | enclosed _ ih =>
    obtain ⟨count, token, rest, rfl, isFirm, -⟩ := ih
    exact ⟨count + 1, token, rest ++ [.mark ")"], by simp [List.replicate_succ], isFirm, nofun⟩
  | _ => trivial

/-! ## Texts meet the needs of their trees -/

theorem guarded_part {part : Option (List Token × Node)} (each : ∀ item ∈ part, Guarded item.2.needs item.1) :
    Guarded (((part.map Prod.snd).map fun node => (node, node.needs)).elim [] Prod.snd) (tokensIfAny part) := by
  cases part with
  | none => exact .nil
  | some item => exact each item rfl

theorem guarded_items {items : List (List Token × Node)} (each : ∀ item ∈ items, Guarded item.2.needs item.1) :
    Guarded (((items.map Prod.snd).map fun node => (node, node.needs)).flatMap Prod.snd)
      (items.flatMap Prod.fst) := by
  rw [List.flatMap_map]
  exact .flatMap each

theorem guarded_arguments {items : List (List Token × Node)}
    (each : ∀ item ∈ items, Guarded item.2.needs item.1) :
    Guarded (List.intercalate [false] (((items.map Prod.snd).map fun node => (node, node.needs)).map Prod.snd))
      (commas (items.map Prod.fst)) := by
  rw [List.map_map, List.map_map]
  exact .commas each

/-- Whatever stands for a tree meets the needs of the tree. -/
theorem Forms.guarded {clause : Clause} {tokens : List Token} {tree : Node} (forms : Forms clause tokens tree) :
    Guarded tree.needs tokens := by
  have opening : Guarded [] [.mark "("] := .plain [.mark "("]
  have closing : Guarded [] [.mark ")"] := .plain [.mark ")"]
  induction forms with
  | block _ ih =>
    rw [Node.needs_eq]
    exact ((Guarded.plain [.mark "\x7b"]).append (guarded_items ih)).append (.plain [.mark "\x7d"])
  | ifThen _ _ ih ih' => exact (((Guarded.plain [.word "if", .mark "("]).append ih).closed closing).append ih'
  | ifElse _ _ _ ih ih' ih'' =>
    have first := (((Guarded.plain [.word "if", .mark "("]).append ih).closed closing).append ih'
    exact first.append ((Guarded.plain [.word "else"]).append ih'')
  | «while» _ _ ih ih' =>
    exact (((Guarded.plain [.word "while", .mark "("]).append ih).closed closing).append ih'
  | doWhile _ _ ih ih' =>
    have first := ((Guarded.plain [.word "do"]).append ih).append (.plain [.word "while", .mark "("])
    exact (first.append ih').append (.plain [.mark ")", .mark ";"])
  | «for» _ _ _ _ ih ih' ih'' ih''' =>
    rw [Node.needs_eq]
    have first := ((Guarded.plain [.word "for", .mark "("]).append (guarded_part ih)).append
      (.plain [.mark ";"])
    have second := (first.append (guarded_part ih')).append (.plain [.mark ";"])
    exact ((second.append (guarded_part ih'')).closed closing).append ih'''
  | labeled _ _ ih => exact (Guarded.plain [.word _, .mark ":"]).append ih
  | «return» _ ih =>
    rw [Node.needs_eq]
    exact ((Guarded.plain [.word "return"]).append (guarded_part ih)).append (.plain [.mark ";"])
  | expressionStatement isExpression other ih =>
    -- An object or a function at the beginning has a parenthesis in front of it: it is not the first token.
    refine (ih.sharpen fun isExposed => ?_).append (.plain [.mark ";"])
    obtain ⟨count, token, rest, rfl, isFirm, bare⟩ := isExpression.isHeaded
    cases count with
    | zero =>
      obtain ⟨notBrace, notFunction⟩ := other token rfl
      rcases (bare rfl).1 isExposed with isBrace | isFunction
      · exact absurd isBrace notBrace
      · exact absurd isFunction notFunction
    | succ count => exact ⟨count, token, rest, rfl, isFirm⟩
  | assign _ _ ih ih' => exact (ih.append (.plain [.mark "="])).append ih'
  | ofAccess _ ih => exact ih
  | call _ _ ih ih' =>
    rw [Node.needs_eq]
    exact ((ih.closed opening).append (guarded_arguments ih')).closed closing
  | new isCallee _ ih ih' =>
    -- What is constructed allows no calls on its spine, so there is a parenthesis in front of one.
    have construct := ih.sharpen fun isCalled => by
      obtain ⟨count, token, rest, rfl, isFirm, bare⟩ := isCallee.isHeaded
      cases count with
      | zero => cases (bare rfl).2 isCalled
      | succ count => exact ⟨count, token, rest, rfl, isFirm⟩
    rw [Node.needs_eq]
    have opened := ((Guarded.plain [.word "new"]).append construct).closed opening
    exact (opened.append (guarded_arguments ih')).closed closing
  | property _ ih => exact ih.append (.plain [.mark ".", .word _])
  | element _ _ ih ih' => exact ((ih.append (.plain [.mark "["])).append ih').append (.plain [.mark "]"])
  | ofPrimary _ ih => exact ih
  | name => exact .plain [.word _]
  | @object properties _ ih =>
    have members : Guarded (List.intercalate [false] (properties.map fun property => (propertyTree property).needs))
        (commas (properties.map propertyTokens)) :=
      .commas fun property mem => (Guarded.plain [.word _, .mark ":"]).append (ih property mem)
    have object := ((Guarded.plain [.mark "\x7b"]).append members).append (.plain [.mark "\x7d"])
    rw [Node.needs_eq]
    show Guarded ([_] ++ List.intercalate _ (((properties.map _).map _).map _) ++ [_]) _
    rw [List.map_map, List.map_map]
    exact object
  | @function isGenerator name parameters items _ _ ih =>
    have star : Guarded (if isGenerator then [false] else []) (if isGenerator then [.mark "*"] else []) := by
      cases isGenerator
      · exact .nil
      · exact .plain [.mark "*"]
    have named : Guarded (name.toList.map fun _ => false) (name.toList.map .word) := by
      cases name with
      | none => exact .nil
      | some name => exact .plain [.word name]
    have listed : Guarded (List.intercalate [false] (parameters.map fun _ => [false]))
        (commas (parameters.map fun name => [.word name])) := .commas fun name _ => .plain [.word name]
    have begun := (((Guarded.plain [.word "function"]).append star).append named).closed opening
    have body := ((Guarded.plain [.mark "\x7b"]).append (guarded_items ih)).append (.plain [.mark "\x7d"])
    have function := ((begun.append listed).closed closing).append body
    rw [functionTree, Node.needs_eq]
    show Guarded ([_] ++ _ ++ _ ++ List.intercalate _ (((parameters.map _).map _).map _) ++ Node.needs _) _
    rw [List.map_map, List.map_map, Node.needs_eq (.synthetic (.block _))]
    exact function
  | enclosed _ ih => exact (opening.append ih).closed closing

end Script

end Resumable
