import Resumable.Proofs.MissingParentheses

/-!
# Printed constructions are read as they were

`Script.Construction` are the expressions of names, accesses, calls and `new`.  They bind equally tightly, so
none of them is written with parentheses; but a `new` takes the first arguments behind it as its own.  The text
of an expression is read as the expression exactly if no `new` constructs what a call leads to
(`Script.Construction.reads_print_iff_allGuarded`): a call on the spine needs a parenthesis in front of it.
-/

namespace Resumable.Script

/-- The expressions of names, accesses, calls and `new`. -/
inductive Construction (alphabet : Alphabet) : Node → Prop
  | identifier {span : Span} {name : String} (isWord : alphabet.IsWord name) (free : name ∉ reserved) :
      Construction alphabet ⟨span, .identifier name⟩
  | new {span : Span} {callee : Node} {arguments : List Node} (isCallee : Construction alphabet callee)
      (each : ∀ inner ∈ arguments, Construction alphabet inner) :
      Construction alphabet ⟨span, .newExpression callee arguments⟩
  | call {span : Span} {callee : Node} {arguments : List Node} (isCallee : Construction alphabet callee)
      (each : ∀ inner ∈ arguments, Construction alphabet inner) :
      Construction alphabet ⟨span, .callExpression callee arguments⟩
  | property {span : Span} {object : Node} {name : String} (isObject : Construction alphabet object)
      (isWord : alphabet.IsWord name) : Construction alphabet ⟨span, .propertyAccess object name⟩
  | element {span : Span} {object index : Node} (isObject : Construction alphabet object)
      (isIndex : Construction alphabet index) : Construction alphabet ⟨span, .elementAccess object index⟩

namespace Construction

variable {alphabet : Alphabet} {node : Node}

theorem isShown (construction : Construction alphabet node) : IsShown alphabet node := by
  induction construction with
  | identifier isWord _ => exact .identifier isWord
  | new _ _ ih ih' => exact .new ih ih'
  | call _ _ ih ih' => exact .call ih ih'
  | property _ isWord ih => exact .property ih isWord
  | element _ _ ih ih' => exact .element ih ih'

/-- An expression is not enclosed, whatever its place asks for. -/
theorem placed_eq (construction : Construction alphabet node) :
    Token.placed Precedence.member (node, node.tokens) = node.tokens := by
  refine if_neg (Nat.not_lt.2 ?_)
  cases construction with
  | identifier => exact Nat.le_of_lt (by decide : Precedence.member < Precedence.primary)
  | _ => exact Nat.le_refl _

/-- An expression begins with a word. -/
theorem begins (construction : Construction alphabet node) : OpensWith 0 node.tokens := by
  induction construction with
  | @identifier span name => exact ⟨.word name, [], rfl, rfl⟩
  | new => exact ⟨.word "new", _, rfl, rfl⟩
  | call isCallee _ ih =>
    rw [← isCallee.placed_eq] at ih
    exact ((ih.append _).append _).append _
  | property isObject _ ih =>
    rw [← isObject.placed_eq] at ih
    exact ih.append _
  | element isObject _ ih =>
    rw [← isObject.placed_eq] at ih
    exact ((ih.append _).append _).append _

theorem isFormed (construction : Construction alphabet node) (guarded : AllGuarded node) : IsFormed node := by
  induction construction with
  | identifier _ free => exact .identifier free
  | new _ _ ih ih' =>
    obtain ⟨own, parts⟩ := allGuarded_iff.1 guarded
    have notCalled : (!Node.isCalled _) = true := own
    rw [Bool.not_eq_true'] at notCalled
    exact .new (ih (parts _ (.head _))) notCalled fun inner mem => ih' inner mem (parts inner (.tail _ mem))
  | call _ _ ih ih' =>
    obtain ⟨-, parts⟩ := allGuarded_iff.1 guarded
    exact .call (ih (parts _ (.head _))) fun inner mem => ih' inner mem (parts inner (.tail _ mem))
  | property _ _ ih => exact .property (ih ((allGuarded_iff.1 guarded).2 _ (.head _)))
  | element _ _ ih ih' =>
    obtain ⟨-, parts⟩ := allGuarded_iff.1 guarded
    exact .element (ih (parts _ (.head _))) (ih' (parts _ (.tail _ (.head _))))

theorem isExact (construction : Construction alphabet node) (opened : Bool) : IsExact opened node := by
  induction construction generalizing opened with
  | identifier => exact .identifier
  | new isCallee _ ih ih' =>
    have begins := isCallee.begins
    rw [← isCallee.placed_eq] at begins
    exact .new ih begins ih'
  | call _ _ ih ih' => exact .call ih ih'
  | property _ _ ih => exact .property ih
  | element _ _ ih ih' => exact .element ih ih'

theorem forms_iff (construction : Construction alphabet node) :
    Forms .expression node.tokens node.bare ↔ AllGuarded node := by
  refine ⟨(construction.isExact false).allGuarded, fun guarded => ?_⟩
  exact (construction.isFormed guarded).expression

theorem reads_iff (construction : Construction alphabet node) :
    Clause.expression.Reads alphabet node.print node.bare ↔ AllGuarded node := by
  have print : node.print = shown 0 0 node := if_pos construction.isShown.isExpression
  rw [print]
  exact (construction.isShown.alone 0).reads_iff.trans construction.forms_iff

/-- The text of an expression stands for the expression and nothing else, up to source ranges, exactly if no `new`
in it constructs what a call leads to; and no two such expressions have the same text. -/
theorem reads_print_iff_allGuarded (construction : Construction alphabet node) :
    ((∀ tree, Clause.expression.Reads alphabet node.print tree ↔ tree = node.bare) ↔ AllGuarded node) ∧
      ∀ other, Construction alphabet other → AllGuarded node → AllGuarded other → other.print = node.print →
        other.bare = node.bare := by
  refine ⟨Clause.Reads.forall_iff.trans construction.reads_iff, fun other isOther guarded guarded' same => ?_⟩
  have reads := isOther.reads_iff.2 guarded'
  rw [same] at reads
  exact reads.unique (construction.reads_iff.2 guarded)

theorem letters {name : String} (notEmpty : name.toList ≠ []) (letters : name.toList.all isLetter = true)
    (free : name ∉ reserved) : Construction .ascii (.synthetic (.identifier name)) :=
  .identifier (Alphabet.isWord_of_letters notEmpty letters) free

/-- A call of a method of an element of a new object. -/
def methodOfNew : Node :=
  let name (name : String) : Node := .synthetic (.identifier name)
  let made : Node := .synthetic (.newExpression (.synthetic (.propertyAccess (name "a") "b")) [name "c"])
  let element : Node := .synthetic (.elementAccess made (name "d"))
  .synthetic (.callExpression (.synthetic (.propertyAccess element "e"))
    [.synthetic (.newExpression (name "f") [])])

example : methodOfNew.print = "new a.b(c)[d].e(new f())" := by rfl

theorem reads_print_methodOfNew : Construction .ascii methodOfNew ∧ AllGuarded methodOfNew ∧
    ((∀ tree, Clause.expression.Reads .ascii methodOfNew.print tree ↔ tree = methodOfNew.bare) ↔
        AllGuarded methodOfNew) ∧
      ∀ other, Construction .ascii other → AllGuarded methodOfNew → AllGuarded other →
        other.print = methodOfNew.print → other.bare = methodOfNew.bare := by
  have isWord {name : String} (notEmpty : name.toList ≠ []) (letters : name.toList.all isLetter = true) :
      Alphabet.ascii.IsWord name := Alphabet.isWord_of_letters notEmpty letters
  have construction : Construction .ascii methodOfNew := by
    refine .call (.property (.element (.new (.property ?_ ?_) ?_) ?_) ?_) ?_
    · exact letters (by decide) rfl (by decide)
    · exact isWord (by decide) rfl
    · exact List.forall_mem_singleton.2 (letters (by decide) rfl (by decide))
    · exact letters (by decide) rfl (by decide)
    · exact isWord (by decide) rfl
    · exact List.forall_mem_singleton.2 (.new (letters (by decide) rfl (by decide)) nofun)
  refine ⟨construction, ?_, construction.reads_print_iff_allGuarded⟩
  unfold AllGuarded
  decide +kernel

/-- What a call gives, constructed. -/
def newOfCall : Node :=
  let call : Node := .synthetic (.callExpression (.synthetic (.identifier "f")) [])
  .synthetic (.newExpression call [])

/-- A call of what is constructed. -/
def callOfNew : Node :=
  let made : Node := .synthetic (.newExpression (.synthetic (.identifier "f")) [])
  .synthetic (.callExpression made [])

/-- A `new` of what a call gives is written like a call of what is new, and read as one. -/
theorem not_reads_newOfCall : Construction .ascii newOfCall ∧ Construction .ascii callOfNew ∧
    newOfCall.print = "new f()()" ∧ callOfNew.print = "new f()()" ∧ newOfCall.bare ≠ callOfNew.bare ∧
      Clause.expression.Reads .ascii newOfCall.print callOfNew.bare ∧
        ¬ Clause.expression.Reads .ascii newOfCall.print newOfCall.bare := by
  have isName : Construction .ascii (.synthetic (.identifier "f")) := letters (by decide) rfl (by decide)
  have isNew : Construction .ascii newOfCall := .new (.call isName nofun) nofun
  have isCall : Construction .ascii callOfNew := .call (.new isName nofun) nofun
  have same : newOfCall.print = callOfNew.print := rfl
  refine ⟨isNew, isCall, rfl, rfl, fun equal => ?_, ?_, fun reads => ?_⟩
  · exact absurd (congrArg Node.isCalled equal) (by decide)
  · rw [same]
    refine isCall.reads_iff.2 ?_
    unfold AllGuarded
    decide +kernel
  · exact absurd (allGuarded_iff.1 (isNew.reads_iff.1 reads)).1 (by decide)

end Construction

end Resumable.Script
