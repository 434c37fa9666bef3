import Resumable.Proofs.Compact

/-!
# What is read from indented texts

Of a value whose numbers are each written as one token, the indented text is read to its end: the
containers, strings and words are read as they were written, and in the place of each number stands
whatever is read from its own text (`Json.reread`, `read_pretty`).  If every number is read back, that
is the value itself (`reread_eq_draft`).
-/

namespace Resumable.Json

/-! ## What is read in the place of numbers -/

namespace Number

/-- What is read from the text of a number. -/
def reread (n : Number) : Draft := (read n.text).root

/-- The text of a number is read to its end. -/
def IsReadable (n : Number) : Prop := (read n.text).exact = true

variable {n : Number}

theorem IsReadable.isTextOf (readable : n.IsReadable) : n.reread.IsTextOf n.text := by
  have reading : read n.text = ⟨n.reread, true⟩ := by rw [← show _ = true from readable, reread]
  exact read_eq_iff.1 reading

theorem IsReadBack.isReadable (readBack : n.IsReadBack) : n.IsReadable := by
  rw [IsReadBack, ofText?] at readBack
  split at readBack
  · assumption
  · cases readBack

theorem isReadBack_iff (readable : n.IsReadable) : n.IsReadBack ↔ n.reread = .number (some n) := by
  rw [IsReadBack, ofText?, show (read n.text).exact = true from readable, if_pos rfl]
  constructor
  · intro value
    exact (Draft.draft_of_value? value).symm
  · intro same
    rw [show (read n.text).root = _ from same]
    rfl

end Number

mutual

/-- The draft of a value with what is read from the texts of its numbers. -/
def reread : Json → Draft
  | .null => .null
  | .boolean b => .boolean b
  | .number n => n.reread
  | .string s => .string (some s)
  | .array items => .array (rereadItems items) true
  | .object members => .object (rereadMembers members) true

/-- What is read in the place of the items. -/
def rereadItems : List Json → List Draft
  | [] => []
  | v :: rest => v.reread :: rereadItems rest

/-- What is read in the place of the members. -/
def rereadMembers : List (String × Json) → List (Option String × Draft)
  | [] => []
  | (key, v) :: rest => (some key, v.reread) :: rereadMembers rest

end

theorem reread_array (items : List Json) : (Json.array items).reread = .array (items.map reread) true := by
  rw [reread]
  congr 1
  induction items with
  | nil => rfl
  | cons item rest ih => rw [rereadItems, ih, List.map_cons]

theorem reread_object (members : List (String × Json)) : (Json.object members).reread =
    .object (members.map fun member => (some member.1, member.2.reread)) true := by
  rw [reread]
  congr 1
  induction members with
  | nil => rfl
  | cons member rest ih => rw [rereadMembers, ih, List.map_cons]

/-- A value whose numbers are read back is read as itself. -/
theorem reread_eq_draft {v : Json} (readBack : ∀ n ∈ v.numbers, n.IsReadBack) : v.reread = v.draft := by
  induction v using inductionOn with
  | null | boolean | string => rfl
  | number n =>
    have back := readBack n (.head _)
    exact (Number.isReadBack_iff back.isReadable).1 back
  | array items ih =>
    rw [numbers_array, List.forall_mem_flatMap] at readBack
    rw [reread_array, draft_array]
    congr 1
    exact List.map_congr_left fun item mem => ih item mem (readBack item mem)
  | object members ih =>
    rw [numbers_object, List.forall_mem_flatMap] at readBack
    rw [reread_object, draft_object]
    congr 1
    apply List.map_congr_left
    intro member mem
    rw [ih member mem (readBack member mem)]

theorem isComplete_reread {v : Json} (readable : ∀ n ∈ v.numbers, n.IsReadable) :
    v.reread.isComplete = true := by
  induction v using inductionOn with
  | null | boolean | string => rfl
  | number n => exact (readable n (.head _)).isTextOf.1
  | array items ih =>
    rw [numbers_array, List.forall_mem_flatMap] at readable
    rw [reread_array, Draft.isComplete_array, List.forall_mem_map]
    exact ⟨rfl, fun item mem => ih item mem (readable item mem)⟩
  | object members ih =>
    rw [numbers_object, List.forall_mem_flatMap] at readable
    rw [reread_object, Draft.isComplete_object, List.forall_mem_map]
    exact ⟨rfl, fun member mem => ih member mem (readable member mem)⟩

/-! ## Indented texts -/

theorem isBlank_of_mem_lineBreak {level : Nat} :
    ∀ c ∈ (lineBreak level).toList, Scanner.isBlank c = true := by
  intro c mem
  have characters : (lineBreak level).toList = '\n' :: List.replicate (2 * level) ' ' := by
    simp [lineBreak]
  rw [characters, List.mem_cons] at mem
  rcases mem with rfl | isSpace
  · rfl
  · rw [List.eq_of_mem_replicate isSpace]
    rfl

theorem spelled_lineBreak (level : Nat) : Spelled [] (lineBreak level).toList :=
  .blanks isBlank_of_mem_lineBreak

/-- Parts on lines of their own. -/
theorem spelled_enclose {α : Type} {tokens : α → List Token} {text : α → String} {parts : List α}
    (each : ∀ part ∈ parts, Spelled (tokens part) (text part).toList) {opening closing : Token}
    {first last : String} (opens : opening.literal? = some first.toList)
    (closes : closing.literal? = some last.toList) (level : Nat) :
    Spelled (opening :: ([Token.comma].intercalate (parts.map tokens) ++ [closing]))
      (enclose first last level (parts.map text)).toList := by
  rw [enclose]
  split
  · rename_i none
    obtain rfl : parts = [] := by simpa using none
    have nothing : Spelled [] "".toList := .blanks (List.forall_mem_nil _)
    simpa using spelled_enclosed nothing opens closes
  · have comma : Spelled [.comma] ("," ++ lineBreak (level + 1)).toList := by
      rw [String.toList_append]
      exact .cons (Token.isText_of_literal rfl) (spelled_lineBreak _)
    have inner : Spelled ([Token.comma].intercalate (parts.map tokens))
        (lineBreak (level + 1) ++
          String.intercalate ("," ++ lineBreak (level + 1)) (parts.map text) ++ lineBreak level).toList := by
      rw [String.toList_append, String.toList_append]
      simpa using ((spelled_lineBreak (level + 1)).append (spelled_intercalate comma each)).append
        (spelled_lineBreak level)
    simpa only [String.append_assoc] using spelled_enclosed inner opens closes

theorem prettyItems_eq (level : Nat) (items : List Json) :
    prettyItems level items = items.map (prettyAt level) := by
  induction items with
  | nil => rfl
  | cons item rest ih => rw [prettyItems, ih, List.map_cons]

theorem prettyMembers_eq (level : Nat) (members : List (String × Json)) : prettyMembers level members =
    members.map fun member => quote member.1 ++ ": " ++ prettyAt level member.2 := by
  induction members with
  | nil => rfl
  | cons member rest ih => rw [prettyMembers, ih, List.map_cons]

/-- The indented text of a value spells the tokens of what is read in its place, if its numbers are
written as tokens. -/
theorem spelled_prettyAt (v : Json) (readable : ∀ n ∈ v.numbers, n.IsReadable) (level : Nat) :
    Spelled v.reread.tokens (prettyAt level v).toList := by
  induction v using inductionOn generalizing level with
  | null =>
    rw [prettyAt]
    exact spelled_literal rfl
  | boolean b =>
    rw [prettyAt]
    cases b <;> exact spelled_literal rfl
  | number n =>
    rw [prettyAt]
    exact (readable n (.head _)).isTextOf.2
  | string s =>
    rw [prettyAt]
    exact .single (isText_quote s)
  | array items ih =>
    rw [numbers_array, List.forall_mem_flatMap] at readable
    rw [reread_array, Draft.tokens_array, List.map_map, prettyAt, prettyItems_eq]
    exact spelled_enclose (fun item mem => ih item mem (readable item mem) _) rfl rfl level
  | object members ih =>
    rw [numbers_object, List.forall_mem_flatMap] at readable
    rw [reread_object, Draft.tokens_object, List.map_map, prettyAt, prettyMembers_eq]
    refine spelled_enclose (fun member mem => ?_) rfl rfl level
    have blank : Spelled [] [' '] := .blanks (List.forall_mem_singleton.2 rfl)
    have colon : Spelled [.colon] ([':'] ++ [' ']) := .cons (Token.isText_of_literal rfl) blank
    have value := ih member mem (readable member mem) (level + 1)
    rw [String.toList_append, String.toList_append, List.append_assoc]
    exact .cons (isText_quote member.1) (colon.append value)

/-- What is read from the indented text of a value and a line break, if the numbers of the value are
written as tokens. -/
theorem read_pretty {v : Json} (readable : ∀ n ∈ v.numbers, n.IsReadable) :
    read (pretty v ++ "\n") = ⟨v.reread, true⟩ := by
  refine read_eq_iff.2 ⟨isComplete_reread readable, ?_⟩
  have behind : Spelled [] "\n".toList := spelled_lineBreak 0
  rw [String.toList_append, pretty]
  simpa only [List.append_nil] using (spelled_prettyAt v readable 0).append behind

/-- The indented text of a value is read to the value, if its numbers are read from their texts. -/
theorem read_pretty_readBack {v : Json} (readBack : ∀ n ∈ v.numbers, n.IsReadBack) :
    read (pretty v ++ "\n") = ⟨v.draft, true⟩ := by
  rw [read_pretty fun n mem => (readBack n mem).isReadable, reread_eq_draft readBack]

end Resumable.Json
