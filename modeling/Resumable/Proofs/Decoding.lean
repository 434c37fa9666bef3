import Resumable.Proofs.Drafts
import Resumable.Syntax.Decode

/-!
# Decoding objects

The decoders of objects go over the members and look for some names.  What they come to only depends
on the values under each of these names, of which there may be at most one (`Sought`): so for the form
and the span of a node (`formOfMembers_eq_ok_iff`, `spanOfMembers_eq_ok_iff`), for its fields
(`fieldsOfMembers_eq_ok_iff`), for the ends of a span (`Span.members_eq_ok_iff`) and for the root,
whose span is decoded while the others are kept (`splitMembers_eq_ok_iff`).
-/

namespace Resumable

open Json (Fault Draft)

/-! ## Results -/

namespace Json

variable {ε α β : Type} {x : Except ε α} {b : β}

theorem bind_eq_ok {f : α → Except ε β} : (x >>= f) = .ok b ↔ ∃ a, x = .ok a ∧ f a = .ok b := by
  cases x with
  | error e => exact ⟨nofun, nofun⟩
  | ok a => exact ⟨fun same => ⟨a, rfl, same⟩, fun ⟨_, isA, same⟩ => Except.ok.inj isA ▸ same⟩

theorem map_eq_ok {f : α → β} : f <$> x = .ok b ↔ ∃ a, x = .ok a ∧ f a = b := by
  cases x with
  | error e => exact ⟨nofun, nofun⟩
  | ok a =>
    exact ⟨fun same => ⟨a, rfl, Except.ok.inj same⟩,
      fun ⟨_, isA, same⟩ => congrArg Except.ok (Except.ok.inj isA ▸ same)⟩

end Json

open Json (bind_eq_ok map_eq_ok)

/-! ## The values under a name -/

section Values

variable {κ α : Type} [DecidableEq κ] {name : κ} {members : List (κ × α)}

/-- The values under a name, in the order of the members. -/
def valuesOf (name : κ) (members : List (κ × α)) : List α :=
  (members.filter (·.1 = name)).map (·.2)

theorem valuesOf_cons (name : κ) (member : κ × α) (members : List (κ × α)) :
    valuesOf name (member :: members) =
      if member.1 = name then member.2 :: valuesOf name members else valuesOf name members := by
  by_cases same : member.1 = name <;> simp [valuesOf, same]

theorem valuesOf_of_not_mem (other : name ∉ members.map Prod.fst) : valuesOf name members = [] := by
  rw [valuesOf, List.filter_eq_nil_iff.2, List.map_nil]
  intro member mem same
  exact other (List.mem_map.2 ⟨member, mem, of_decide_eq_true same⟩)

theorem valuesOf_perm {members' : List (κ × α)} (perm : members.Perm members') (name : κ) :
    (valuesOf name members).Perm (valuesOf name members') :=
  (perm.filter _).map _

end Values

section Sought

variable {α β ε : Type} {decode : α → Except ε β} {old new : Option β} {a : α} {found : List α}

/-- One value is looked for: none is found, and the result is still the old one, or there was no
result and the only one that is found is decoded to it. -/
def Sought (decode : α → Except ε β) (old new : Option β) (found : List α) : Prop :=
  found = [] ∧ new = old ∨ old = none ∧ ∃ a b, found = [a] ∧ decode a = .ok b ∧ new = some b

theorem sought_nil : Sought decode old new [] ↔ new = old := by
  simp [Sought]

theorem sought_cons : Sought decode old new (a :: found) ↔
    old = none ∧ ∃ b, decode a = .ok b ∧ Sought decode (some b) new found := by
  simp only [Sought, List.cons_ne_nil, false_and, false_or, reduceCtorEq, or_false]
  refine and_congr_right fun _ => ⟨?_, ?_⟩
  · rintro ⟨_, b, ⟨⟩, decoded, same⟩
    exact ⟨b, decoded, rfl, same⟩
  · rintro ⟨b, decoded, rfl, same⟩
    exact ⟨a, b, rfl, decoded, same⟩

theorem Sought.perm {found' : List α} (sought : Sought decode old new found)
    (perm : found.Perm found') : Sought decode old new found' := by
  rcases sought with ⟨rfl, same⟩ | ⟨isNew, a, b, rfl, decoded⟩
  · exact .inl ⟨List.nil_perm.1 perm, same⟩
  · exact .inr ⟨isNew, a, b, List.singleton_perm.1 perm ▸ rfl, decoded⟩

/-- Another value in the place of one that is decoded to the same. -/
theorem Sought.replace {κ : Type} [DecidableEq κ] {name key : κ} {a' : α} {rest : List (κ × α)}
    (sought : Sought decode old new (valuesOf name ((key, a) :: rest)))
    (same : key = name → ∀ b, decode a = .ok b → decode a' = .ok b) :
    Sought decode old new (valuesOf name ((key, a') :: rest)) := by
  rw [valuesOf_cons] at sought ⊢
  by_cases isName : key = name
  · rw [if_pos isName, sought_cons] at sought ⊢
    obtain ⟨isNew, b, decoded, rest⟩ := sought
    exact ⟨isNew, b, same isName b decoded, rest⟩
  · rwa [if_neg isName] at sought ⊢

end Sought

namespace Node

/-! ## Forms and spans -/

theorem formOfMembers_eq_ok_iff {form? : Option Form} {form : Form} {members : List (String × Json)} :
    formOfMembers form? members = .ok form ↔
      Sought Form.ofJson form? (some form) (valuesOf "kind" members) := by
  induction members generalizing form? with
  | nil => cases form? <;> simp [formOfMembers, valuesOf, sought_nil, eq_comm]
  | cons member rest ih =>
    rw [formOfMembers, valuesOf_cons]
    split
    · rw [sought_cons]
      cases form? with
      | some form => simp
      | none => simp [bind_eq_ok, ih]
    · exact ih

theorem spanOfMembers_eq_ok_iff {span? : Option Span} {span : Span} {members : List (String × Json)} :
    spanOfMembers span? members = .ok span ↔ ∃ found,
      Sought Span.ofJson span? found (valuesOf "span" members) ∧ found.getD .synthetic = span := by
  induction members generalizing span? with
  | nil => simp [spanOfMembers, valuesOf, sought_nil]
  | cons member rest ih =>
    rw [spanOfMembers, valuesOf_cons]
    split
    · simp only [sought_cons]
      cases span? with
      | some span => simp
      | none =>
        simp only [Option.isSome_none, Bool.false_eq_true, if_false, bind_eq_ok, ih]
        exact ⟨fun ⟨b, decoded, found, sought, same⟩ => ⟨found, ⟨trivial, b, decoded, sought⟩, same⟩,
          fun ⟨found, ⟨_, b, decoded, sought⟩, same⟩ => ⟨b, decoded, found, sought, same⟩⟩
    · exact ih

/-! ## Fields -/

/-- The value of a field. -/
def fieldOfJson (shape : FieldShape) (v : Json) : Except Fault (FieldValue Node) :=
  match shape, v with
  | .node, v => .node <$> ofJson v
  | .optionalNode, .null => .ok (.optionalNode none)
  | .optionalNode, v => (.optionalNode ∘ some) <$> ofJson v
  | .nodes, .array items => .nodes <$> ofItems items
  | plain, v => FieldValue.ofPlain plain v

theorem ofItems_eq_ok_iff {items : List Json} {nodes : List Node} :
    ofItems items = .ok nodes ↔ List.Forall₂ (fun v node => ofJson v = .ok node) items nodes := by
  induction items generalizing nodes with
  | nil =>
    rw [ofItems, List.forall₂_nil_left_iff, Except.ok.injEq]
    exact eq_comm
  | cons item rest ih =>
    simp only [ofItems, bind_eq_ok, List.forall₂_cons_left_iff, ih]
    constructor
    · rintro ⟨node, first, nodes, others, ⟨⟩⟩
      exact ⟨node, nodes, first, others, rfl⟩
    · rintro ⟨node, nodes, first, others, rfl⟩
      exact ⟨node, first, nodes, others, rfl⟩

variable {shapes : List (String × FieldShape)} {fields : List (String × FieldValue Node)}

theorem fieldsOfMembers_unknown {member : String × Json} {rest : List (String × Json)}
    (unknown : shapes.lookup member.1 = none) :
    fieldsOfMembers shapes fields (member :: rest) = fieldsOfMembers shapes fields rest := by
  rw [fieldsOfMembers, unknown]

theorem fieldsOfMembers_known {member : String × Json} {rest : List (String × Json)}
    {shape : FieldShape} (known : shapes.lookup member.1 = some shape) :
    fieldsOfMembers shapes fields (member :: rest) =
      if (Kind.lookup fields member.1).isSome then .error (.duplicateField member.1)
      else (do
        let field ← fieldOfJson shape member.2
        fieldsOfMembers shapes (fields ++ [(member.1, field)]) rest) := by
  obtain ⟨key, value⟩ := member
  rw [fieldsOfMembers, known]
  cases shape <;> cases value <;> rfl

/-- The values of fields are found among members. -/
def SoughtFields (shapes : List (String × FieldShape)) (old new : String → Option (FieldValue Node))
    (members : List (String × Json)) : Prop :=
  ∀ name, (shapes.lookup name = none → new name = old name) ∧
    ∀ shape, shapes.lookup name = some shape →
      Sought (fieldOfJson shape) (old name) (new name) (valuesOf name members)

theorem soughtFields_unknown {old get : String → Option (FieldValue Node)} {member : String × Json}
    {rest : List (String × Json)} (unknown : shapes.lookup member.1 = none) :
    SoughtFields shapes old get (member :: rest) ↔ SoughtFields shapes old get rest := by
  refine forall_congr' fun name => and_congr_right fun _ => forall_congr' fun shape =>
    imp_congr_right fun isKnown => ?_
  have other : member.1 ≠ name := by
    rintro rfl
    rw [unknown] at isKnown
    cases isKnown
  rw [valuesOf_cons, if_neg other]

theorem soughtFields_known {old get : String → Option (FieldValue Node)} {member : String × Json}
    {rest : List (String × Json)} {shape : FieldShape} (known : shapes.lookup member.1 = some shape) :
    SoughtFields shapes old get (member :: rest) ↔ old member.1 = none ∧
      ∃ field, fieldOfJson shape member.2 = .ok field ∧
        SoughtFields shapes (Function.update old member.1 (some field)) get rest := by
  constructor
  · intro sought
    have first := (sought member.1).2 shape known
    rw [valuesOf_cons, if_pos rfl, sought_cons] at first
    obtain ⟨isNew, field, decoded, more⟩ := first
    refine ⟨isNew, field, decoded, fun name => ?_⟩
    by_cases same : name = member.1
    · rw [same, known, Function.update_self]
      refine ⟨nofun, fun shape' isShape => ?_⟩
      cases isShape
      exact more
    · have there := sought name
      rwa [valuesOf_cons, if_neg (Ne.symm same), ← Function.update_of_ne same (some field) old] at there
  · rintro ⟨isNew, field, decoded, sought⟩ name
    have there := sought name
    by_cases same : name = member.1
    · rw [same, known, Function.update_self] at there
      rw [same, known]
      refine ⟨nofun, fun shape' isShape => ?_⟩
      have more := there.2 shape' isShape
      cases isShape
      rw [valuesOf_cons, if_pos rfl, sought_cons]
      exact ⟨isNew, field, decoded, more⟩
    · rwa [valuesOf_cons, if_neg (Ne.symm same), ← Function.update_of_ne same (some field) old]

theorem lookup_concat {key : String} (new : Kind.lookup fields key = none) (field : FieldValue Node) :
    Kind.lookup (fields ++ [(key, field)]) = Function.update (Kind.lookup fields) key (some field) := by
  funext name
  rw [Kind.lookup, List.lookup_append, List.lookup_cons]
  by_cases same : name = key
  · rw [same, Function.update_self, show fields.lookup key = none from new]
    simp
  · rw [Function.update_of_ne same, beq_eq_false_iff_ne.2 same]
    exact Option.or_none

theorem fieldsOfMembers_eq_ok_iff {members : List (String × Json)}
    {get : String → Option (FieldValue Node)} :
    (∃ out, fieldsOfMembers shapes fields members = .ok out ∧ Kind.lookup out = get) ↔
      SoughtFields shapes (Kind.lookup fields) get members := by
  induction members generalizing fields with
  | nil =>
    have unchanged : (∃ out, fieldsOfMembers shapes fields [] = .ok out ∧ Kind.lookup out = get) ↔
        ∀ name, get name = Kind.lookup fields name := by
      simp [fieldsOfMembers, funext_iff, eq_comm]
    rw [unchanged]
    refine forall_congr' fun name => ?_
    cases shapes.lookup name <;> simp [valuesOf, sought_nil]
  | cons member rest ih =>
    cases known : shapes.lookup member.1 with
    | none => rw [fieldsOfMembers_unknown known, ih, soughtFields_unknown known]
    | some shape =>
      rw [fieldsOfMembers_known known, soughtFields_known known]
      cases new : Kind.lookup fields member.1 with
      | some field => simp
      | none =>
        simp only [Option.isSome_none, Bool.false_eq_true, if_false, bind_eq_ok, true_and,
          ← lookup_concat new, ← ih]
        exact ⟨fun ⟨out, ⟨field, decoded, more⟩, same⟩ => ⟨field, decoded, out, more, same⟩,
          fun ⟨field, decoded, out, more, same⟩ => ⟨out, ⟨field, decoded, more⟩, same⟩⟩

/-! ## Nodes -/

end Node

namespace Form

/-- The fields of a form with their shapes. -/
def shapes (form : Form) : List (String × FieldShape) :=
  (form.record : Record Node (Kind Node)).shapes

/-- The names of the fields of a form. -/
def fieldNames (form : Form) : List String :=
  form.shapes.map Prod.fst

theorem nodup_fieldNames (form : Form) : form.fieldNames.Nodup := by
  cases form <;> decide

theorem not_mem_fieldNames (form : Form) :
    "span" ∉ form.fieldNames ∧ "kind" ∉ form.fieldNames := by
  cases form <;> decide

theorem lookup_eq_none_iff {form : Form} {name : String} :
    form.shapes.lookup name = none ↔ name ∉ form.fieldNames := by
  simp only [List.lookup_eq_none_iff, bne_iff_ne, fieldNames, List.mem_map, not_exists, not_and]
  exact forall₂_congr fun _ _ => ne_comm

theorem lookup_span (form : Form) : form.shapes.lookup "span" = none :=
  lookup_eq_none_iff.2 form.not_mem_fieldNames.1

theorem lookup_kind (form : Form) : form.shapes.lookup "kind" = none :=
  lookup_eq_none_iff.2 form.not_mem_fieldNames.2

end Form

namespace Node

/-- The node with that span whose kind is made up by the members. -/
def ofMembers (span : Span) (members : List (String × Json)) : Except Fault Node := do
  let form ← formOfMembers none members
  let fields ← fieldsOfMembers form.shapes [] members
  let kind ← (form.record : Record Node (Kind Node)).build (Kind.lookup fields)
  return ⟨span, kind⟩

theorem ofMembers_eq_ok_iff {span : Span} {members : List (String × Json)} {node : Node} :
    ofMembers span members = .ok node ↔ ∃ form get kind,
      Sought Form.ofJson none (some form) (valuesOf "kind" members) ∧
      SoughtFields form.shapes (fun _ => none) get members ∧
      (form.record : Record Node (Kind Node)).build get = .ok kind ∧ Node.mk span kind = node := by
  have empty : (fun _ : String => (none : Option (FieldValue Node))) = Kind.lookup [] := rfl
  simp only [ofMembers, bind_eq_ok, formOfMembers_eq_ok_iff, empty, ← fieldsOfMembers_eq_ok_iff]
  constructor
  · rintro ⟨form, isForm, fields, decoded, kind, built, ⟨⟩⟩
    exact ⟨form, _, kind, isForm, ⟨fields, decoded, rfl⟩, built, rfl⟩
  · rintro ⟨form, _, kind, isForm, ⟨fields, decoded, rfl⟩, built, rfl⟩
    exact ⟨form, isForm, fields, decoded, kind, built, rfl⟩

theorem ofJson_object_eq_ok_iff {members : List (String × Json)} {node : Node} :
    ofJson (.object members) = .ok node ↔ ∃ span?,
      Sought Span.ofJson none span? (valuesOf "span" members) ∧
      ofMembers (span?.getD .synthetic) members = .ok node := by
  have staged : ofJson (.object members) = (do ofMembers (← spanOfMembers none members) members) := by
    rw [ofJson]
    rfl
  simp only [staged, bind_eq_ok, spanOfMembers_eq_ok_iff]
  exact ⟨fun ⟨_, ⟨span?, sought, same⟩, decoded⟩ => ⟨span?, sought, same ▸ decoded⟩,
    fun ⟨span?, sought, decoded⟩ => ⟨_, ⟨span?, sought, rfl⟩, decoded⟩⟩

theorem splitMembers_eq_ok_iff {span? found : Option Span} {members : List (Option String × Draft)}
    {values : List (String × Json)} :
    splitMembers span? members = .ok (found, values) ↔
      Sought (Span.ofDraft fun _ => .malformed) span? found (valuesOf (some "span") members) ∧
      List.Forall₂ (Draft.HoldsMember (maxNesting - 1)) (members.filter (·.1 ≠ some "span")) values := by
  induction members generalizing span? values with
  | nil => simp [splitMembers, valuesOf, sought_nil, eq_comm]
  | cons member rest ih =>
    obtain ⟨_ | key, value⟩ := member
    · refine ⟨nofun, fun ⟨_, values⟩ => ?_⟩
      rw [List.filter_cons_of_pos (by simp), List.forall₂_cons_left_iff] at values
      obtain ⟨_, _, ⟨⟨⟩, _⟩, _⟩ := values
    rw [splitMembers, valuesOf_cons]
    by_cases isSpan : key = "span"
    · rw [if_pos isSpan, if_pos (congrArg some isSpan), sought_cons,
        List.filter_cons_of_neg (by simp [isSpan])]
      cases span? with
      | some span => simp
      | none =>
        simp only [Option.isSome_none, Bool.false_eq_true, if_false, bind_eq_ok, ih, true_and]
        exact ⟨fun ⟨b, decoded, sought, values⟩ => ⟨⟨b, decoded, sought⟩, values⟩,
          fun ⟨⟨b, decoded, sought⟩, values⟩ => ⟨b, decoded, sought, values⟩⟩
    · have other : (some key : Option String) ≠ some "span" := fun same => isSpan (Option.some.inj same)
      rw [if_neg isSpan, if_neg other, List.filter_cons_of_pos (by simpa using isSpan),
        List.forall₂_cons_left_iff]
      cases held : value.value? (maxNesting - 1) with
      | none =>
        refine ⟨nofun, fun ⟨_, v, _, ⟨_, holds⟩, _⟩ => ?_⟩
        rw [held] at holds
        cases holds
      | some v =>
        constructor
        · intro whole
          obtain ⟨⟨found', values'⟩, taken, kept⟩ := bind_eq_ok.1 whole
          cases kept
          obtain ⟨sought, others⟩ := ih.1 taken
          exact ⟨sought, (key, v), values', ⟨rfl, held⟩, others, rfl⟩
        · rintro ⟨sought, ⟨key', v'⟩, values', ⟨name, holds⟩, others, rfl⟩
          obtain rfl : key = key' := Option.some.inj name
          obtain rfl : v = v' := Option.some.inj (held.symm.trans holds)
          exact bind_eq_ok.2 ⟨(found, values'), ih.2 ⟨sought, others⟩, rfl⟩

theorem ofDraft_object_eq_ok_iff {members : List (Option String × Draft)} {closed : Bool} {node : Node} :
    ofDraft (.object members closed) = .ok node ↔ closed = true ∧ ∃ span? values,
      Sought (Span.ofDraft fun _ => .malformed) none span? (valuesOf (some "span") members) ∧
      List.Forall₂ (Draft.HoldsMember (maxNesting - 1)) (members.filter (·.1 ≠ some "span")) values ∧
      ofMembers (span?.getD .synthetic) values = .ok node := by
  have staged : ofDraft (.object members closed) = (do
      let parts ← splitMembers none members
      if closed then ofMembers (parts.1.getD .synthetic) parts.2 else .error .malformed) := by
    rw [ofDraft]
    cases closed <;> rfl
  cases closed with
  | false => simp [staged, bind_eq_ok]
  | true => simp only [staged, bind_eq_ok, Prod.exists, splitMembers_eq_ok_iff, and_assoc, if_true, true_and]

end Node

/-! ## Spans -/

namespace Span

/-- The next member may be one of the ends, if that was not met yet, or another one that is complete. -/
theorem members_cons_eq_ok_iff {seen : List String} {ends found : Ends} {key : String} {value : Draft}
    {rest : List (Option String × Draft)} :
    Draft.members ofDraft.field? seen ends ((some key, value) :: rest) = .ok found ↔
      (key = "start" ∧ "start" ∉ seen ∧ ∃ w, value.word = .ok w ∧
        Draft.members ofDraft.field? ("start" :: seen) { ends with start := some w } rest = .ok found) ∨
      (key = "end" ∧ "end" ∉ seen ∧ ∃ w, value.word = .ok w ∧
        Draft.members ofDraft.field? ("end" :: seen) { ends with stop := some w } rest = .ok found) ∨
      (key ≠ "start" ∧ key ≠ "end" ∧ value.isComplete = true ∧
        Draft.members ofDraft.field? seen ends rest = .ok found) := by
  rw [Draft.members]
  by_cases isStart : key = "start"
  · subst isStart
    by_cases met : "start" ∈ seen
    · simp [ofDraft.field?, met]
    · simp [ofDraft.field?, met, bind_eq_ok, ofDraft.readStart]
  by_cases isStop : key = "end"
  · subst isStop
    by_cases met : "end" ∈ seen
    · simp [ofDraft.field?, met]
    · simp [ofDraft.field?, met, bind_eq_ok, ofDraft.readStop]
  · by_cases complete : value.isComplete = true
    · simp [ofDraft.field?, isStart, isStop, complete]
    · simp [ofDraft.field?, isStart, isStop, complete]

/-- The member is one of the ends, or another one that is complete. -/
def IsMember (member : Option String × Draft) : Prop :=
  ∃ key, member.1 = some key ∧ (key = "start" ∨ key = "end" ∨ member.2.isComplete = true)

/-- The ends that are found among the members of a span. -/
theorem members_eq_ok_iff {seen : List String} {ends found : Ends}
    {members : List (Option String × Draft)} (start : "start" ∈ seen ↔ ends.start ≠ none)
    (stop : "end" ∈ seen ↔ ends.stop ≠ none) :
    Draft.members ofDraft.field? seen ends members = .ok found ↔
      (∀ member ∈ members, IsMember member) ∧
      Sought Draft.word ends.start found.start (valuesOf (some "start") members) ∧
      Sought Draft.word ends.stop found.stop (valuesOf (some "end") members) := by
  induction members generalizing seen ends with
  | nil =>
    rw [Draft.members, Except.ok.injEq]
    simp only [List.not_mem_nil, false_imp_iff, implies_true, true_and, valuesOf, List.filter_nil,
      List.map_nil, sought_nil]
    constructor
    · rintro rfl
      exact ⟨rfl, rfl⟩
    · rintro ⟨first, second⟩
      cases ends; cases found; cases first; cases second; rfl
  | cons member rest ih =>
    obtain ⟨_ | key, value⟩ := member
    · simp [Draft.members, IsMember]
    rw [List.forall_mem_cons, valuesOf_cons, valuesOf_cons, members_cons_eq_ok_iff]
    by_cases isStart : key = "start"
    · subst isStart
      have later (w : UInt32) : Draft.members ofDraft.field? ("start" :: seen)
          { ends with start := some w } rest = .ok found ↔ _ := ih (by simp) (by simpa using stop)
      have isMember : IsMember (some "start", value) := ⟨"start", rfl, .inl rfl⟩
      simp only [start, ne_eq, Decidable.not_not, later, true_and, String.reduceEq, false_and,
        not_true_eq_false, not_false_eq_true, or_self, or_false, isMember, if_true, if_false, sought_cons,
        Option.some.injEq]
      constructor
      · rintro ⟨isNew, w, decoded, others, first, second⟩
        exact ⟨others, ⟨isNew, w, decoded, first⟩, second⟩
      · rintro ⟨others, ⟨isNew, w, decoded, first⟩, second⟩
        exact ⟨isNew, w, decoded, others, first, second⟩
    by_cases isStop : key = "end"
    · subst isStop
      have later (w : UInt32) : Draft.members ofDraft.field? ("end" :: seen)
          { ends with stop := some w } rest = .ok found ↔ _ := ih (by simpa using start) (by simp)
      have isMember : IsMember (some "end", value) := ⟨"end", rfl, .inr (.inl rfl)⟩
      simp only [String.reduceEq, false_and, stop, ne_eq, Decidable.not_not, later, true_and,
        not_false_eq_true, not_true_eq_false, and_false, or_false, false_or, isMember, Option.some.injEq,
        if_true, if_false, sought_cons]
      constructor
      · rintro ⟨isNew, w, decoded, others, first, second⟩
        exact ⟨others, first, isNew, w, decoded, second⟩
      · rintro ⟨others, first, isNew, w, decoded, second⟩
        exact ⟨isNew, w, decoded, others, first, second⟩
    · have isMember : IsMember (some key, value) ↔ value.isComplete = true := by
        simp [IsMember, isStart, isStop]
      simp [-Prod.forall, isStart, isStop, ih start stop, isMember, and_assoc]

theorem ofDraft_object_eq_ok_iff {overlong : Nat → Fault} {members : List (Option String × Draft)}
    {closed : Bool} {span : Span} : ofDraft overlong (.object members closed) = .ok span ↔
      closed = true ∧ (∀ member ∈ members, IsMember member) ∧
      Sought Draft.word none (some span.start) (valuesOf (some "start") members) ∧
      Sought Draft.word none (some span.stop) (valuesOf (some "end") members) := by
  have ends : ofDraft overlong (.object members closed) = .ok span ↔ closed = true ∧
      Draft.members ofDraft.field? [] ⟨none, none⟩ members = .ok ⟨some span.start, some span.stop⟩ := by
    rw [ofDraft, bind_eq_ok]
    constructor
    · rintro ⟨⟨start?, stop?⟩, read, whole⟩
      cases closed with
      | false => cases whole
      | true =>
        cases start? <;> cases stop? <;> cases whole
        exact ⟨rfl, read⟩
    · rintro ⟨rfl, read⟩
      exact ⟨_, read, rfl⟩
  rw [ends, members_eq_ok_iff (by simp) (by simp)]

theorem word_of_ofDraft_array {overlong : Nat → Fault} {items : List Draft} {closed : Bool} {span : Span}
    (decoded : ofDraft overlong (.array items closed) = .ok span) :
    ∀ item ∈ items, ∃ w, item.word = .ok w := by
  rw [ofDraft] at decoded
  obtain ⟨ends, read, -⟩ := bind_eq_ok.1 decoded
  match items with
  | [] => exact List.forall_mem_nil _
  | [first] =>
    obtain ⟨ends, start, -⟩ := bind_eq_ok.1 read
    obtain ⟨w, word, -⟩ := bind_eq_ok.1 start
    simpa using ⟨w, word⟩
  | [first, second] =>
    obtain ⟨ends, start, rest⟩ := bind_eq_ok.1 read
    obtain ⟨w, word, -⟩ := bind_eq_ok.1 start
    obtain ⟨ends, stop, -⟩ := bind_eq_ok.1 rest
    obtain ⟨w', word', -⟩ := bind_eq_ok.1 stop
    simpa using ⟨⟨w, word⟩, w', word'⟩
  | first :: second :: third :: more =>
    obtain ⟨ends, start, rest⟩ := bind_eq_ok.1 read
    obtain ⟨ends, stop, rest⟩ := bind_eq_ok.1 rest
    cases rest

end Span

end Resumable
