import Resumable.Json.Reader
import Resumable.Proofs.Drafts

/-!
# The tokens of a value

`Draft.tokens` is the list of the tokens that a value is written with.  Taken one after the other
they give that value (`foldl_accept_tokens`), and no other tokens do: what was taken so far is always
the list of the tokens of the open containers (`tokens_accept`).  So tokens give a value exactly if
they are its own (`foldl_accept_iff`).
-/

namespace Resumable.Json

namespace Draft

/-! ## The tokens of a draft -/

mutual

/-- The tokens of a complete draft. -/
def tokens : Draft → List Token
  | .missing => []
  | .null => [.null]
  | .boolean b => [.boolean b]
  | .number n => [.number n]
  | .string s => [.string s]
  | .array items _ => .openArray :: ([Token.comma].intercalate (itemTokens items) ++ [.closeArray])
  | .object members _ =>
    .openObject :: ([Token.comma].intercalate (memberTokens members) ++ [.closeObject])

/-- The tokens of the items. -/
def itemTokens : List Draft → List (List Token)
  | [] => []
  | item :: rest => item.tokens :: itemTokens rest

/-- The tokens of the members. -/
def memberTokens : List (Option String × Draft) → List (List Token)
  | [] => []
  | (key, item) :: rest => (.string key :: .colon :: item.tokens) :: memberTokens rest

end

/-- The tokens of a member. -/
def tokensOfMember (member : Option String × Draft) : List Token :=
  .string member.1 :: .colon :: member.2.tokens

theorem itemTokens_eq (items : List Draft) : itemTokens items = items.map tokens := by
  induction items with
  | nil => rfl
  | cons item rest ih => rw [itemTokens, ih, List.map_cons]

theorem memberTokens_eq (members : List (Option String × Draft)) :
    memberTokens members = members.map tokensOfMember := by
  induction members with
  | nil => rfl
  | cons member rest ih => rw [memberTokens, ih, List.map_cons, tokensOfMember]

theorem tokens_array (items : List Draft) (closed : Bool) :
    (Draft.array items closed).tokens =
      .openArray :: ([Token.comma].intercalate (items.map tokens) ++ [.closeArray]) := by
  rw [tokens, itemTokens_eq]

theorem tokens_object (members : List (Option String × Draft)) (closed : Bool) :
    (Draft.object members closed).tokens =
      .openObject :: ([Token.comma].intercalate (members.map tokensOfMember) ++ [.closeObject]) := by
  rw [tokens, memberTokens_eq]

end Draft

open Draft (tokens tokensOfMember)

namespace Progress

/-! ## Tokens give their value -/

/-- Where one value may stand, any may, and containers may be opened. -/
theorem enter_of_place {v : Draft} {frames : List Frame} {p : Progress}
    (takes : place v frames = some p) (inner : Frame) :
    enter inner frames = some (.within (inner :: frames)) := by
  unfold place at takes
  split at takes <;> first | rfl | cases takes

theorem feed_string_of_place {v : Draft} {frames : List Frame} {p : Progress}
    (takes : place v frames = some p) (s : Option String) :
    feed? frames (.string s) = place (.string s) frames := by
  unfold place at takes
  split at takes <;> first | rfl | cases takes

theorem accept_of_feed {frames : List Frame} {token : Token} {p : Progress}
    (fed : feed? frames token = some p) : accept (.within frames) token = p := by
  rw [accept, fed, Option.getD_some]

/-- Parts with commas between them are taken one after the other. The state after some parts only
depends on these, the last one first. -/
theorem foldl_accept_intercalate {α : Type} (spell : α → List Token) (after : List α → Progress)
    {next : List α → Progress} (comma : ∀ taken, accept (after taken) .comma = next taken)
    (parts : List α)
    (each : ∀ part ∈ parts, ∀ taken, (spell part).foldl accept (next taken) = after (part :: taken))
    (notEmpty : parts ≠ []) (start : Progress) (taken : List α)
    (first : ∀ part ∈ parts, (spell part).foldl accept start = after (part :: taken)) :
    ([Token.comma].intercalate (parts.map spell)).foldl accept start =
      after (parts.reverse ++ taken) := by
  induction parts generalizing start taken with
  | nil => exact absurd rfl notEmpty
  | cons part rest ih =>
    cases rest with
    | nil =>
      rw [List.map_singleton, List.intercalate_singleton, first part (.head _)]
      rfl
    | cons part' rest =>
      have each (part) (mem : part ∈ part' :: rest) := each part (.tail _ mem)
      rw [List.map_cons, List.map_cons, List.intercalate_cons_cons, List.foldl_append,
        List.foldl_append, first part (.head _), List.foldl_cons, List.foldl_nil, comma]
      refine (ih each (List.cons_ne_nil _ _) (next (part :: taken)) (part :: taken)
        fun part mem => each part mem _).trans ?_
      rw [List.reverse_cons (a := part), List.append_assoc]
      rfl

/-- The tokens of a complete value put it where it may stand. -/
theorem foldl_accept_tokens (d : Draft) (complete : d.isComplete = true) :
    ∀ frames p, place d frames = some p → d.tokens.foldl accept (.within frames) = p := by
  induction d using Draft.inductionOn with
  | missing => cases complete
  | null => exact fun frames p placed => accept_of_feed placed
  | boolean b => exact fun frames p placed => accept_of_feed placed
  | number n => exact fun frames p placed => accept_of_feed placed
  | string s =>
    exact fun frames p placed => accept_of_feed ((feed_string_of_place placed s).trans placed)
  | array items closed ih =>
    intro frames p placed
    obtain ⟨rfl, each⟩ := (Draft.isComplete_array items closed).1 complete
    have opened : accept (.within frames) .openArray = .within (.firstItem :: frames) :=
      accept_of_feed (enter_of_place placed .firstItem)
    rw [Draft.tokens_array, List.foldl_cons, opened, List.foldl_append]
    cases items with
    | nil => exact accept_of_feed placed
    | cons item rest =>
      have taken (item : Draft) (mem : item ∈ _) := ih item mem (each item mem)
      rw [foldl_accept_intercalate tokens (fun items => .within (.afterItem items :: frames))
        (fun _ => rfl) (item :: rest) (fun item mem before => taken item mem _ _ rfl)
        (List.cons_ne_nil _ _) (.within (.firstItem :: frames)) []
        fun item mem => taken item mem _ _ rfl]
      refine accept_of_feed (Eq.trans ?_ placed)
      rw [List.append_nil]
      exact congrArg (fun items => place (.array items true) frames) (List.reverse_reverse _)
  | object members closed ih =>
    intro frames p placed
    obtain ⟨rfl, each⟩ := (Draft.isComplete_object members closed).1 complete
    have opened : accept (.within frames) .openObject = .within (.firstKey :: frames) :=
      accept_of_feed (enter_of_place placed .firstKey)
    rw [Draft.tokens_object, List.foldl_cons, opened, List.foldl_append]
    cases members with
    | nil => exact accept_of_feed placed
    | cons member rest =>
      have taken (member : Option String × Draft) (mem : member ∈ _) := ih member mem (each member mem)
      rw [foldl_accept_intercalate tokensOfMember
        (fun members => .within (.afterMember members :: frames)) (fun _ => rfl) (member :: rest)
        (fun member mem before => taken member mem (.memberValue before member.1 :: frames) _ rfl)
        (List.cons_ne_nil _ _) (.within (.firstKey :: frames)) []
        fun member mem => taken member mem (.memberValue [] member.1 :: frames) _ rfl]
      refine accept_of_feed (Eq.trans ?_ placed)
      rw [List.append_nil]
      exact congrArg (fun members => place (.object members true) frames) (List.reverse_reverse _)

/-! ## No other tokens give it -/

end Progress

/-- Parts with a comma behind each of them, of which the last one comes first in the list. -/
def followed {α : Type} (spell : α → List Token) (parts : List α) : List Token :=
  parts.reverse.flatMap fun part => spell part ++ [.comma]

theorem followed_cons {α : Type} (spell : α → List Token) (part : α) (parts : List α) :
    followed spell (part :: parts) = followed spell parts ++ spell part ++ [.comma] := by
  simp [followed]

theorem intercalate_reverse_cons {α : Type} (spell : α → List Token) (part : α) (parts : List α) :
    [Token.comma].intercalate ((part :: parts).reverse.map spell) =
      followed spell parts ++ spell part := by
  have joined (parts : List (List Token)) : [Token.comma].intercalate (parts ++ [spell part]) =
      parts.flatMap (· ++ [.comma]) ++ spell part := by
    induction parts with
    | nil => simp
    | cons first rest ih =>
      rw [List.flatMap_cons, List.append_assoc, ← ih]
      cases rest <;> exact List.intercalate_cons_cons
  rw [List.reverse_cons, List.map_append, List.map_singleton, joined, followed, List.flatMap_map]

/-- The tokens that were taken since a container was opened, without those of containers in it. -/
def Frame.tokens : Frame → List Token
  | .firstItem => [.openArray]
  | .nextItem items => .openArray :: followed Draft.tokens items
  | .afterItem items => .openArray :: [Token.comma].intercalate (items.reverse.map Draft.tokens)
  | .firstKey => [.openObject]
  | .nextKey members => .openObject :: followed tokensOfMember members
  | .afterKey members key => .openObject :: (followed tokensOfMember members ++ [.string key])
  | .memberValue members key =>
    .openObject :: (followed tokensOfMember members ++ [.string key, .colon])
  | .afterMember members =>
    .openObject :: [Token.comma].intercalate (members.reverse.map tokensOfMember)

theorem Frame.tokens_afterItem (v : Draft) (items : List Draft) :
    (Frame.afterItem (v :: items)).tokens =
      .openArray :: (followed Draft.tokens items ++ v.tokens) :=
  congrArg _ (intercalate_reverse_cons _ _ _)

theorem Frame.tokens_afterMember (member : Option String × Draft)
    (members : List (Option String × Draft)) :
    (Frame.afterMember (member :: members)).tokens =
      .openObject :: (followed tokensOfMember members ++ tokensOfMember member) :=
  congrArg _ (intercalate_reverse_cons _ _ _)

/-- All that was taken in a container is complete. -/
def Frame.IsSound : Frame → Prop
  | .firstItem | .firstKey => True
  | .nextItem items => ∀ item ∈ items, item.isComplete = true
  | .afterItem items => items ≠ [] ∧ ∀ item ∈ items, item.isComplete = true
  | .nextKey members | .afterKey members _ | .memberValue members _ =>
    ∀ member ∈ members, member.2.isComplete = true
  | .afterMember members => members ≠ [] ∧ ∀ member ∈ members, member.2.isComplete = true

/-- The tokens that were taken inside containers, the innermost one first. -/
def framesTokens (frames : List Frame) : List Token := frames.reverse.flatMap Frame.tokens

theorem framesTokens_cons (frame : Frame) (frames : List Frame) :
    framesTokens (frame :: frames) = framesTokens frames ++ frame.tokens := by
  simp [framesTokens]

namespace Progress

/-- The tokens that were taken so far. -/
def tokens : Progress → List Token
  | .within frames => framesTokens frames
  | .complete root => root.tokens
  | .stopped _ => []

/-- All that was taken so far is complete. -/
def IsSound : Progress → Prop
  | .within frames => ∀ frame ∈ frames, frame.IsSound
  | .complete root => root.isComplete = true
  | .stopped _ => True

variable {frames : List Frame} {p : Progress}

/-- The innermost container goes on. -/
theorem tokens_turn {frame later : Frame} {more : List Token}
    (sound : ∀ inner ∈ frame :: frames, inner.IsSound) (stillSound : frame.IsSound → later.IsSound)
    (taken : later.tokens = frame.tokens ++ more) :
    (within (later :: frames)).IsSound ∧
      (within (later :: frames)).tokens = framesTokens (frame :: frames) ++ more := by
  obtain ⟨inner, outer⟩ := List.forall_mem_cons.1 sound
  refine ⟨List.forall_mem_cons.2 ⟨stillSound inner, outer⟩, ?_⟩
  rw [tokens, framesTokens_cons, framesTokens_cons, taken, List.append_assoc]

/-- Putting a value where it may stand takes its tokens. -/
theorem tokens_place {v : Draft} (sound : ∀ frame ∈ frames, frame.IsSound)
    (complete : v.isComplete = true) (placed : place v frames = some p) :
    p.IsSound ∧ p.tokens = framesTokens frames ++ v.tokens := by
  unfold place at placed
  split at placed
  · obtain rfl := Option.some.inj placed
    exact ⟨complete, rfl⟩
  · obtain rfl := Option.some.inj placed
    exact tokens_turn sound (fun _ => ⟨nofun, by simpa using complete⟩) (Frame.tokens_afterItem _ _)
  · obtain rfl := Option.some.inj placed
    exact tokens_turn sound (fun items => ⟨nofun, List.forall_mem_cons.2 ⟨complete, items⟩⟩)
      (Frame.tokens_afterItem _ _)
  · obtain rfl := Option.some.inj placed
    refine tokens_turn sound (fun members => ⟨nofun, List.forall_mem_cons.2 ⟨complete, members⟩⟩)
      ((Frame.tokens_afterMember _ _).trans ?_)
    simp [Frame.tokens, tokensOfMember]
  · cases placed

/-- Opening a container where a value may stand takes the token that opens it. -/
theorem tokens_enter {inner : Frame} (sound : ∀ frame ∈ frames, frame.IsSound)
    (innerSound : inner.IsSound) (entered : enter inner frames = some p) :
    p.IsSound ∧ p.tokens = framesTokens frames ++ inner.tokens := by
  have inside : p = .within (inner :: frames) := by
    unfold enter at entered
    split at entered
    · exact (Option.some.inj entered).symm
    · split at entered <;> first | exact (Option.some.inj entered).symm | cases entered
  rw [inside]
  exact ⟨List.forall_mem_cons.2 ⟨innerSound, sound⟩, framesTokens_cons _ _⟩

/-- Closing the innermost container puts it where it stands. -/
theorem tokens_close {frame : Frame} {v : Draft} {token : Token}
    (sound : ∀ inner ∈ frame :: frames, inner.IsSound)
    (complete : frame.IsSound → v.isComplete = true) (taken : v.tokens = frame.tokens ++ [token])
    (placed : place v frames = some p) :
    p.IsSound ∧ p.tokens = framesTokens (frame :: frames) ++ [token] := by
  obtain ⟨inner, outer⟩ := List.forall_mem_cons.1 sound
  obtain ⟨still, tokens⟩ := tokens_place outer (complete inner) placed
  exact ⟨still, by rw [tokens, taken, framesTokens_cons, List.append_assoc]⟩

/-- A token that may stand inside the open containers is taken. -/
theorem tokens_feed {token : Token} (sound : ∀ frame ∈ frames, frame.IsSound)
    (fed : feed? frames token = some p) :
    p.IsSound ∧ p.tokens = framesTokens frames ++ [token] := by
  cases token with
  | null => exact tokens_place sound rfl fed
  | boolean b => exact tokens_place (v := .boolean b) sound rfl fed
  | number n => exact tokens_place (v := .number n) sound rfl fed
  | openArray => exact tokens_enter sound (show Frame.firstItem.IsSound from trivial) fed
  | openObject => exact tokens_enter sound (show Frame.firstKey.IsSound from trivial) fed
  | string s =>
    simp only [feed?] at fed
    split at fed
    · obtain rfl := Option.some.inj fed
      exact tokens_turn sound (fun _ => nofun) rfl
    · obtain rfl := Option.some.inj fed
      exact tokens_turn sound id rfl
    · exact tokens_place (v := .string s) sound rfl fed
  | colon =>
    simp only [feed?] at fed
    split at fed
    · obtain rfl := Option.some.inj fed
      exact tokens_turn sound id (by simp [Frame.tokens])
    · cases fed
  | comma =>
    simp only [feed?] at fed
    split at fed
    · rename_i items rest
      obtain rfl := Option.some.inj fed
      refine tokens_turn sound And.right ?_
      cases items with
      | nil => exact absurd rfl (sound _ (.head _)).1
      | cons item items =>
        rw [Frame.tokens_afterItem, Frame.tokens, followed_cons]
        rfl
    · rename_i members rest
      obtain rfl := Option.some.inj fed
      refine tokens_turn sound And.right ?_
      cases members with
      | nil => exact absurd rfl (sound _ (.head _)).1
      | cons member members =>
        rw [Frame.tokens_afterMember, Frame.tokens, followed_cons]
        rfl
    · cases fed
  | closeArray =>
    simp only [feed?] at fed
    split at fed
    · exact tokens_close sound (fun _ => by simp) rfl fed
    · exact tokens_close sound (fun items => by simpa using items.2) (Draft.tokens_array _ _) fed
    · cases fed
  | closeObject =>
    simp only [feed?] at fed
    split at fed
    · exact tokens_close sound (fun _ => by simp) rfl fed
    · exact tokens_close sound (fun members => by simpa using members.2) (Draft.tokens_object _ _) fed
    · cases fed

/-- A token that is taken without a fault. -/
theorem tokens_accept (token : Token) (sound : p.IsSound) :
    (∃ root, p.accept token = .stopped root) ∨
      (p.accept token).IsSound ∧ (p.accept token).tokens = p.tokens ++ [token] := by
  cases p with
  | within frames =>
    cases fed : feed? frames token with
    | none => exact .inl ⟨abandon frames, by rw [accept, fed]; rfl⟩
    | some later =>
      rw [accept_of_feed fed]
      exact .inr (tokens_feed sound fed)
  | complete root => exact .inl ⟨root, rfl⟩
  | stopped root => exact .inl ⟨root, rfl⟩

theorem foldl_accept_stopped (root : Draft) (tokens : List Token) :
    tokens.foldl accept (.stopped root) = .stopped root := by
  induction tokens with
  | nil => rfl
  | cons token rest ih => exact ih

/-- All tokens that were taken without a fault. -/
theorem tokens_foldl_accept (taken : List Token) (sound : p.IsSound) :
    (∃ root, taken.foldl accept p = .stopped root) ∨
      (taken.foldl accept p).IsSound ∧ (taken.foldl accept p).tokens = p.tokens ++ taken := by
  induction taken generalizing p with
  | nil => exact .inr ⟨sound, (List.append_nil _).symm⟩
  | cons token rest ih =>
    rw [List.foldl_cons]
    rcases tokens_accept token sound with ⟨root, stopped⟩ | ⟨still, tokens⟩
    · exact .inl ⟨root, by rw [stopped, foldl_accept_stopped]⟩
    · rcases ih still with stopped | ⟨stillLater, later⟩
      · exact .inl stopped
      · exact .inr ⟨stillLater, by rw [later, tokens, List.append_assoc]; rfl⟩

/-- Tokens give a value exactly if it is complete and they are its own. -/
theorem foldl_accept_iff {taken : List Token} {root : Draft} :
    taken.foldl accept (.within []) = .complete root ↔
      root.isComplete = true ∧ taken = root.tokens := by
  constructor
  · intro complete
    have sound : (within []).IsSound := List.forall_mem_nil _
    rcases tokens_foldl_accept taken sound with ⟨_, stopped⟩ | ⟨rootSound, tokens⟩
    · rw [complete] at stopped
      cases stopped
    · rw [complete] at rootSound tokens
      exact ⟨rootSound, tokens.symm⟩
  · rintro ⟨complete, rfl⟩
    exact foldl_accept_tokens root complete [] _ rfl

end Progress

end Resumable.Json
