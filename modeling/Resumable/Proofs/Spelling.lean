import Resumable.Proofs.Tokens

/-!
# How tokens are spelled

A text spells tokens if it consists of texts of these tokens with any blanks between them, in front
and behind (`Spelled`).  A text can be read to its end exactly if it spells the tokens of a complete
value, and that is the value that is read from it (`read_eq_iff`).
-/

namespace Resumable.Json

/-! ## Scanning a whole text -/

namespace Scanner

/-- The tokens of the rest of a text, if it has no fault and ends where it may. -/
def scan? (s : Scanner) : List Char → Option (List Token)
  | [] => s.finish?
  | c :: rest =>
    match s.step c with
    | (tokens, some next) => (next.scan? rest).map (tokens ++ ·)
    | (_, none) => none

theorem scan?_cons_some {s next : Scanner} {c : Char} {tokens : List Token}
    (stepped : s.step c = (tokens, some next)) (rest : List Char) :
    s.scan? (c :: rest) = (next.scan? rest).map (tokens ++ ·) := by
  rw [scan?, stepped]

theorem scan?_cons_quiet {s next : Scanner} {c : Char} (stepped : s.step c = ([], some next))
    (rest : List Char) : s.scan? (c :: rest) = next.scan? rest := by
  rw [scan?_cons_some stepped]
  exact Option.map_id'

theorem scan?_cons_none {s : Scanner} {c : Char} {tokens : List Token}
    (stepped : s.step c = (tokens, none)) (rest : List Char) : s.scan? (c :: rest) = none := by
  rw [scan?, stepped]

end Scanner

theorem Progress.reading_eq_iff {p : Progress} {root : Draft} :
    p.reading = ⟨root, true⟩ ↔ p = .complete root := by
  cases p <;> simp [Progress.reading]

theorem Progress.reading_stop (p : Progress) {root : Draft} : p.stop.reading ≠ ⟨root, true⟩ := by
  cases p <;> simp [Progress.stop, Progress.reading]

/-- A text is read to its end if its tokens give a value. -/
theorem readFrom_eq_iff {s : Scanner} {p : Progress} {text : List Char} {root : Draft} :
    readFrom s p text = ⟨root, true⟩ ↔
      ∃ tokens, s.scan? text = some tokens ∧ tokens.foldl Progress.accept p = .complete root := by
  induction text generalizing s p with
  | nil =>
    rw [readFrom, Scanner.scan?]
    cases s.finish? with
    | none => simp [Progress.reading_stop]
    | some tokens => simp [Progress.reading_eq_iff]
  | cons c rest ih =>
    rw [readFrom, Scanner.scan?]
    obtain ⟨tokens, next⟩ := s.step c
    dsimp only
    generalize reached : tokens.foldl Progress.accept p = q
    cases next with
    | none => cases q <;> simp [Progress.reading_stop]
    | some next =>
      have later : (∃ all, (next.scan? rest).map (tokens ++ ·) = some all ∧
          all.foldl Progress.accept p = .complete root) ↔
          ∃ more, next.scan? rest = some more ∧ more.foldl Progress.accept q = .complete root := by
        simp [← reached, List.foldl_append]
      cases q with
      | stopped root' =>
        rw [later]
        simp [Progress.foldl_accept_stopped]
      | within frames => exact ih.trans later.symm
      | complete root' => exact ih.trans later.symm

/-! ## Texts of tokens -/

/-- The text of a token that is neither a number nor a string. -/
def Token.literal? : Token → Option (List Char)
  | .openArray => some ['[']
  | .closeArray => some [']']
  | .openObject => some ['\x7b']
  | .closeObject => some ['\x7d']
  | .comma => some [',']
  | .colon => some [':']
  | .null => some ['n', 'u', 'l', 'l']
  | .boolean true => some ['t', 'r', 'u', 'e']
  | .boolean false => some ['f', 'a', 'l', 's', 'e']
  | .number _ | .string _ => none

/-- The text is one of the token: its literal text, or one of a number or string in which nothing else
is read. -/
def Token.IsText (token : Token) (text : List Char) : Prop :=
  match token.literal? with
  | some literal => text = literal
  | none => Scanner.idle.scan? text = some [token]

theorem Token.isText_of_literal {token : Token} {text : List Char}
    (literal : token.literal? = some text) : token.IsText text := by
  rw [IsText, literal]

/-- The text consists of texts of the tokens and blanks. -/
inductive Spelled : List Token → List Char → Prop
  | blanks {text : List Char} (blank : ∀ c ∈ text, Scanner.isBlank c = true) : Spelled [] text
  | token {token : Token} {tokens : List Token} {blanks text rest : List Char}
      (blank : ∀ c ∈ blanks, Scanner.isBlank c = true) (isText : token.IsText text)
      (more : Spelled tokens rest) : Spelled (token :: tokens) (blanks ++ text ++ rest)

namespace Spelled

variable {token : Token} {tokens : List Token} {text rest : List Char}

theorem single (isText : token.IsText text) : Spelled [token] text := by
  simpa using Spelled.token (List.forall_mem_nil _) isText (.blanks (List.forall_mem_nil _))

theorem cons (isText : token.IsText text) (more : Spelled tokens rest) :
    Spelled (token :: tokens) (text ++ rest) :=
  .token (List.forall_mem_nil _) isText more

theorem blank_append {blanks : List Char} (blank : ∀ c ∈ blanks, Scanner.isBlank c = true)
    (spelled : Spelled tokens text) : Spelled tokens (blanks ++ text) := by
  cases spelled with
  | blanks blank' => exact .blanks (List.forall_mem_append.2 ⟨blank, blank'⟩)
  | token blank' isText more =>
    rw [← List.append_assoc, ← List.append_assoc]
    exact .token (List.forall_mem_append.2 ⟨blank, blank'⟩) isText more

theorem append {more : List Token} (spelled : Spelled tokens text) (behind : Spelled more rest) :
    Spelled (tokens ++ more) (text ++ rest) := by
  induction spelled with
  | blanks blank => exact behind.blank_append blank
  | token blank isText _ ih =>
    rw [List.append_assoc]
    exact .token blank isText ih

end Spelled

/-! ## What is scanned is spelled -/

namespace Scanner

/-- The text begins with the rest of a number or string, and then holds texts of the other tokens. -/
def Ends (s : Scanner) (tokens : List Token) (text : List Char) : Prop :=
  ∃ token ending rest more, text = ending ++ rest ∧ tokens = token :: more ∧
    token.literal? = none ∧ s.scan? ending = some [token] ∧ Spelled more rest

/-- What a text holds of which the scanner has read the beginning: the rest of the text of a token,
and then texts of the other tokens. -/
def Continues (s : Scanner) (tokens : List Token) (text : List Char) : Prop :=
  match s with
  | .idle => Spelled tokens text
  | .word left token =>
    ∃ rest more, text = left ++ rest ∧ tokens = token :: more ∧ Spelled more rest
  | .number .. | .string .. => s.Ends tokens text

variable {s next : Scanner} {c : Char} {text : List Char} {tokens : List Token}

theorem Ends.cons (ends : next.Ends tokens text) (stepped : s.step c = ([], some next)) :
    s.Ends tokens (c :: text) := by
  obtain ⟨token, ending, rest, more, rfl, rfl, literal, last, spelled⟩ := ends
  refine ⟨token, c :: ending, rest, more, rfl, rfl, literal, ?_, spelled⟩
  rw [scan?_cons_quiet stepped, last]

/-- What the first character of a token may be: a blank in front of it, all of it, or the beginning
of a longer one. -/
theorem start_cases (c : Char) :
    (isBlank c = true ∧ start c = ([], some .idle)) ∨
      (∃ token : Token, token.literal? = some [c] ∧ start c = ([token], some .idle)) ∨
      (∃ next, start c = ([], some next) ∧ next ≠ .idle ∧
        ∀ left token, next = .word left token → token.literal? = some (c :: left)) ∨
      start c = ([], none) := by
  by_cases blank : isBlank c = true
  · exact .inl ⟨blank, by rw [start, if_pos blank]⟩
  by_cases opensArray : c = '['
  · subst opensArray
    exact .inr (.inl ⟨_, rfl, rfl⟩)
  by_cases closesArray : c = ']'
  · subst closesArray
    exact .inr (.inl ⟨_, rfl, rfl⟩)
  by_cases opensObject : c = '\x7b'
  · subst opensObject
    exact .inr (.inl ⟨_, rfl, rfl⟩)
  by_cases closesObject : c = '\x7d'
  · subst closesObject
    exact .inr (.inl ⟨_, rfl, rfl⟩)
  by_cases isComma : c = ','
  · subst isComma
    exact .inr (.inl ⟨_, rfl, rfl⟩)
  by_cases isColon : c = ':'
  · subst isColon
    exact .inr (.inl ⟨_, rfl, rfl⟩)
  by_cases quote : c = '"'
  · subst quote
    exact .inr (.inr (.inl ⟨_, rfl, nofun, nofun⟩))
  by_cases minus : c = '-'
  · subst minus
    exact .inr (.inr (.inl ⟨_, rfl, nofun, nofun⟩))
  by_cases isTrue : c = 't'
  · subst isTrue
    refine .inr (.inr (.inl ⟨_, rfl, nofun, ?_⟩))
    rintro left token ⟨⟩
    rfl
  by_cases isFalse : c = 'f'
  · subst isFalse
    refine .inr (.inr (.inl ⟨_, rfl, nofun, ?_⟩))
    rintro left token ⟨⟩
    rfl
  by_cases isNull : c = 'n'
  · subst isNull
    refine .inr (.inr (.inl ⟨_, rfl, nofun, ?_⟩))
    rintro left token ⟨⟩
    rfl
  rw [start, if_neg blank, if_neg opensArray, if_neg closesArray, if_neg opensObject,
    if_neg closesObject, if_neg isComma, if_neg isColon, if_neg quote, if_neg minus, if_neg isTrue,
    if_neg isFalse, if_neg isNull]
  split
  · cases (Numeral.signed false).continue? .sign c with
    | none => exact .inr (.inr (.inr rfl))
    | some numeral => exact .inr (.inr (.inl ⟨_, rfl, nofun, nofun⟩))
  · exact .inr (.inr (.inr rfl))

/-- What the next character of a word may be: its last one, or one inside it. -/
theorem continueWord_cases (left : List Char) (token : Token) (c : Char) :
    (left = [c] ∧ continueWord left token c = ([token], some .idle)) ∨
      (∃ left', left = c :: left' ∧ continueWord left token c = ([], some (.word left' token))) ∨
      continueWord left token c = ([], none) := by
  obtain _ | ⟨next, _ | ⟨next', left⟩⟩ := left
  · exact .inr (.inr rfl)
  · by_cases same : c = next
    · exact .inl ⟨by rw [same], if_pos same⟩
    · exact .inr (.inr (if_neg same))
  · by_cases same : c = next
    · exact .inr (.inl ⟨_, by rw [same], if_pos same⟩)
    · exact .inr (.inr (if_neg same))

/-- What the next character of a string may be: its end, or one inside it. -/
theorem continueString_cases (phase : EscapePhase) (t : StringDraft) (c : Char) :
    continueString phase t c = ([.string t.text?], some .idle) ∨
      (∃ phase' t', continueString phase t c = ([], some (.string phase' t'))) ∨
      continueString phase t c = ([], none) := by
  cases phase with
  | none =>
    rw [continueString]
    split
    · exact .inl rfl
    split
    · exact .inr (.inl ⟨_, _, rfl⟩)
    split
    · exact .inr (.inr rfl)
    · exact .inr (.inl ⟨_, _, rfl⟩)
  | backslash =>
    rw [continueString]
    split
    · exact .inr (.inl ⟨_, _, rfl⟩)
    · cases escaped? c with
      | none => exact .inr (.inr rfl)
      | some c => exact .inr (.inl ⟨_, _, rfl⟩)
  | unit value left =>
    rw [continueString]
    cases hexValue? c with
    | none => exact .inr (.inr rfl)
    | some digit =>
      rw [Option.map_some]
      split <;> exact .inr (.inl ⟨_, _, rfl⟩)

/-- What the next character after a part of a number may be: one of the number, or one behind it. -/
theorem continueNumber_cases (phase : NumeralPhase) (t : Numeral) (c : Char) :
    (∃ phase' t', continueNumber phase t c = ([], some (.number phase' t'))) ∨
      (phase.canEnd = true ∧
        continueNumber phase t c = (.number t.number? :: (start c).1, (start c).2)) ∨
      continueNumber phase t c = ([], none) := by
  rw [continueNumber]
  split
  · exact .inl ⟨_, _, rfl⟩
  · split
    · rename_i ends
      exact .inr (.inl ⟨(Bool.and_eq_true_iff.1 ends).1, rfl⟩)
    · exact .inr (.inr rfl)

/-- The rest of the text of a token that was begun with a character. -/
theorem spelled_of_started {next : Scanner} (started : start c = ([], some next))
    (notIdle : next ≠ .idle)
    (isToken : ∀ left token, next = .word left token → token.literal? = some (c :: left))
    (continues : next.Continues tokens text) : Spelled tokens (c :: text) := by
  have ended (ends : next.Ends tokens text) : Spelled tokens (c :: text) := by
    obtain ⟨token, ending, rest, more, whole, rfl, literal, scan, spelled⟩ := ends.cons (s := .idle) started
    have isText : token.IsText ending := by
      rw [Token.IsText, literal]
      exact scan
    rw [whole]
    exact .cons isText spelled
  cases next with
  | idle => exact absurd rfl notIdle
  | word left token =>
    obtain ⟨rest, more, rfl, rfl, spelled⟩ := continues
    have isText := Token.isText_of_literal (isToken left token rfl)
    exact .cons isText spelled
  | number phase t => exact ended continues
  | string phase t => exact ended continues

/-- Between tokens. -/
theorem spelled_of_scan_cons
    (later : ∀ (s : Scanner) tokens, s.scan? text = some tokens → s.Continues tokens text)
    (scanned : idle.scan? (c :: text) = some tokens) : Spelled tokens (c :: text) := by
  rcases start_cases c with ⟨blank, started⟩ | ⟨token, literal, started⟩ |
    ⟨next, started, notIdle, isToken⟩ | started
  · rw [scan?_cons_quiet (s := .idle) started] at scanned
    have blanks : ∀ b ∈ [c], isBlank b = true := by simpa using blank
    exact Spelled.blank_append blanks (later .idle tokens scanned)
  · rw [scan?_cons_some (s := .idle) started] at scanned
    obtain ⟨more, scan, rfl⟩ := Option.map_eq_some_iff.1 scanned
    exact .cons (Token.isText_of_literal literal) (later .idle more scan)
  · rw [scan?_cons_quiet (s := .idle) started] at scanned
    exact spelled_of_started started notIdle isToken (later next tokens scanned)
  · rw [scan?_cons_none (s := .idle) started] at scanned
    cases scanned

/-- What a scanner reads from a text is spelled there. -/
theorem continues_of_scan (s : Scanner) (tokens : List Token) (scanned : s.scan? text = some tokens) :
    s.Continues tokens text := by
  induction text generalizing s tokens with
  | nil =>
    cases s with
    | idle =>
      cases scanned
      exact .blanks (List.forall_mem_nil _)
    | word left token => cases scanned
    | string phase t => cases scanned
    | number phase t =>
      have ended : (Scanner.number phase t).finish? = some tokens := scanned
      rw [finish?] at ended
      split at ended
      · cases ended
        exact ⟨_, [], [], [], rfl, rfl, rfl, scanned, .blanks (List.forall_mem_nil _)⟩
      · cases ended
  | cons c text ih =>
    cases s with
    | idle => exact spelled_of_scan_cons ih scanned
    | word left token =>
      rcases continueWord_cases left token c with ⟨rfl, stepped⟩ | ⟨left, rfl, stepped⟩ | stepped
      · rw [scan?_cons_some (s := .word [c] token) stepped] at scanned
        obtain ⟨more, scan, rfl⟩ := Option.map_eq_some_iff.1 scanned
        exact ⟨text, more, rfl, rfl, ih .idle more scan⟩
      · rw [scan?_cons_quiet (s := .word (c :: left) token) stepped] at scanned
        obtain ⟨rest, more, rfl, rfl, spelled⟩ := ih (.word left token) tokens scanned
        exact ⟨rest, more, rfl, rfl, spelled⟩
      · rw [scan?_cons_none (s := .word left token) stepped] at scanned
        cases scanned
    | string phase t =>
      rcases continueString_cases phase t c with stepped | ⟨phase', t', stepped⟩ | stepped
      · rw [scan?_cons_some (s := .string phase t) stepped] at scanned
        obtain ⟨more, scan, rfl⟩ := Option.map_eq_some_iff.1 scanned
        refine ⟨_, [c], text, more, rfl, rfl, rfl, ?_, ih .idle more scan⟩
        rw [scan?_cons_some (s := .string phase t) stepped]
        rfl
      · rw [scan?_cons_quiet (s := .string phase t) stepped] at scanned
        exact Ends.cons (ih (.string phase' t') tokens scanned) stepped
      · rw [scan?_cons_none (s := .string phase t) stepped] at scanned
        cases scanned
    | number phase t =>
      rcases continueNumber_cases phase t c with ⟨phase', t', stepped⟩ | ⟨canEnd, stepped⟩ | stepped
      · rw [scan?_cons_quiet (s := .number phase t) stepped] at scanned
        exact Ends.cons (ih (.number phase' t') tokens scanned) stepped
      · -- The number ends in front of the character.
        have behind : (scan? .idle (c :: text)).map (.number t.number? :: ·) = some tokens := by
          rw [← scanned, scan?, scan?, show (Scanner.number phase t).step c = _ from stepped,
            show Scanner.idle.step c = start c from rfl]
          obtain ⟨more, next⟩ := start c
          cases next with
          | none => rfl
          | some next => simp [Function.comp_def]
        obtain ⟨more, scan, rfl⟩ := Option.map_eq_some_iff.1 behind
        refine ⟨_, [], c :: text, more, rfl, rfl, rfl, ?_, spelled_of_scan_cons ih scan⟩
        exact if_pos canEnd
      · rw [scan?_cons_none (s := .number phase t) stepped] at scanned
        cases scanned

/-! ## What is spelled is scanned -/

/-- A number has ended where this character stands. -/
def endsNumber (c : Char) : Bool := isBlank c || c = ',' || c = ':' || c = ']' || c = '\x7d'

theorem step_number_of_endsNumber {phase : NumeralPhase} (t : Numeral) (canEnd : phase.canEnd = true)
    (ends : endsNumber c = true) :
    (number phase t).step c = (.number t.number? :: (start c).1, (start c).2) := by
  have other : t.continue? phase c = none ∧ c.isDigit = false := by
    simp only [endsNumber, isBlank, Bool.or_eq_true, decide_eq_true_eq] at ends
    rcases ends with ((((((rfl | rfl) | rfl) | rfl) | rfl) | rfl) | rfl) | rfl <;>
      exact ⟨by cases phase <;> rfl, rfl⟩
  rw [step, continueNumber, other.1, canEnd, other.2]
  simp

/-- What is read of a text is read of it in front of another one, where a number ends. -/
theorem scan?_append {rest : List Char} (ends : ∀ c ∈ rest.head?, endsNumber c = true)
    (scanned : s.scan? text = some tokens) :
    s.scan? (text ++ rest) = (idle.scan? rest).map (tokens ++ ·) := by
  induction text generalizing s tokens with
  | nil =>
    have ended : s.finish? = some tokens := scanned
    cases s with
    | idle =>
      cases ended
      simp
    | word left token => cases ended
    | string phase t => cases ended
    | number phase t =>
      rw [finish?] at ended
      split at ended
      · rename_i canEnd
        cases ended
        cases rest with
        | nil => exact if_pos canEnd
        | cons c rest =>
          rw [List.nil_append, scan?, scan?, step_number_of_endsNumber t canEnd (ends c rfl),
            show idle.step c = start c from rfl]
          obtain ⟨more, next⟩ := start c
          cases next with
          | none => rfl
          | some next => simp [Function.comp_def]
      · cases ended
  | cons c text ih =>
    cases stepped : s.step c with
    | mk first next =>
      cases next with
      | none =>
        rw [scan?_cons_none stepped] at scanned
        cases scanned
      | some next =>
        rw [scan?_cons_some stepped] at scanned
        obtain ⟨more, scan, rfl⟩ := Option.map_eq_some_iff.1 scanned
        rw [List.cons_append, scan?_cons_some stepped, ih scan]
        simp [Function.comp_def]

theorem scan?_blanks {blanks : List Char} (blank : ∀ c ∈ blanks, isBlank c = true) (rest : List Char) :
    idle.scan? (blanks ++ rest) = idle.scan? rest := by
  induction blanks with
  | nil => rfl
  | cons c blanks ih =>
    obtain ⟨isBlank, blank⟩ := List.forall_mem_cons.1 blank
    have started : idle.step c = ([], some .idle) := if_pos isBlank
    rw [List.cons_append, scan?_cons_quiet started, ih blank]

theorem scan?_literal {token : Token} {literal : List Char} (isText : token.literal? = some literal)
    (rest : List Char) : idle.scan? (literal ++ rest) = (idle.scan? rest).map (token :: ·) := by
  unfold Token.literal? at isText
  split at isText <;> cases isText <;> simp [scan?, step, start, isBlank, continueWord, Function.comp_def]

end Scanner

/-- The token can stand behind a value: it separates or closes. -/
def Token.isDelimiter : Token → Bool
  | .comma | .colon | .closeArray | .closeObject => true
  | _ => false

/-- The first of the tokens can stand behind a value. -/
def Delimited (tokens : List Token) : Prop := ∀ token ∈ tokens.head?, token.isDelimiter = true

/-- Behind every number and string stands a token that ends it. -/
def Separated : List Token → Prop
  | [] => True
  | token :: rest => (token.literal? = none → Delimited rest) ∧ Separated rest

theorem Spelled.endsNumber {tokens : List Token} {text : List Char} (spelled : Spelled tokens text)
    (delimited : Delimited tokens) : ∀ c ∈ text.head?, Scanner.endsNumber c = true := by
  have ofBlank {c : Char} (blank : Scanner.isBlank c = true) : Scanner.endsNumber c = true := by
    simp [Scanner.endsNumber, blank]
  cases spelled with
  | blanks blank => exact fun c mem => ofBlank (blank c (List.mem_of_mem_head? mem))
  | @token token _ blanks text _ blank isText =>
    cases blanks with
    | cons b blanks =>
      rintro _ ⟨⟩
      exact ofBlank (blank b (.head _))
    | nil =>
      have isDelimiter : token.isDelimiter = true := delimited token rfl
      intro c mem
      cases token <;> cases isDelimiter <;> cases isText <;> cases mem <;> rfl

/-- Tokens are scanned from what they are spelled as. -/
theorem Spelled.scan {tokens : List Token} {text : List Char} (spelled : Spelled tokens text)
    (separated : Separated tokens) : Scanner.idle.scan? text = some tokens := by
  induction spelled with
  | @blanks text blank =>
    rw [← List.append_nil text, Scanner.scan?_blanks blank]
    rfl
  | @token token tokens blanks text rest blank isText more ih =>
    obtain ⟨delimited, separated⟩ := separated
    rw [List.append_assoc, Scanner.scan?_blanks blank]
    rw [Token.IsText] at isText
    cases literal : token.literal? with
    | some text' =>
      rw [literal] at isText
      rw [isText, Scanner.scan?_literal literal, ih separated]
      rfl
    | none =>
      rw [literal] at isText
      rw [Scanner.scan?_append (more.endsNumber (delimited literal)) isText, ih separated]
      rfl

/-! ## Texts of values -/

/-- Tokens with which a value may end. -/
def Closed (tokens : List Token) : Prop :=
  ∀ more, Delimited more → Separated more → Separated (tokens ++ more)

theorem closed_intercalate {parts : List (List Token)} (closed : ∀ part ∈ parts, Closed part) :
    Closed ([Token.comma].intercalate parts) := by
  induction parts with
  | nil => exact fun _ _ separated => separated
  | cons part rest ih =>
    obtain ⟨first, others⟩ := List.forall_mem_cons.1 closed
    cases rest with
    | nil => rwa [List.intercalate_singleton]
    | cons part' rest =>
      intro more delimited separated
      rw [List.intercalate_cons_cons, List.append_assoc, List.append_assoc]
      refine first _ (by simp [Delimited, Token.isDelimiter]) ?_
      exact ⟨nofun, ih others more delimited separated⟩

theorem closed_tokens (d : Draft) : Closed d.tokens := by
  have single (token : Token) : Closed [token] := fun more delimited separated =>
    ⟨fun _ => delimited, separated⟩
  have enclosed {inner : List Token} (closed : Closed inner) {opening closing : Token}
      (opens : opening.literal? ≠ none) (closes : closing.isDelimiter = true) :
      Closed (opening :: (inner ++ [closing])) := by
    intro more delimited separated
    refine ⟨fun none => absurd none opens, ?_⟩
    change Separated ((inner ++ [closing]) ++ more)
    rw [List.append_assoc]
    exact closed _ (by simpa [Delimited] using closes) (single closing more delimited separated)
  induction d using Draft.inductionOn with
  | missing => exact fun _ _ separated => separated
  | null | boolean | number | string => exact single _
  | array items closed ih =>
    rw [Draft.tokens_array]
    exact enclosed (closed_intercalate (List.forall_mem_map.2 ih)) nofun rfl
  | object members closed ih =>
    rw [Draft.tokens_object]
    refine enclosed (closed_intercalate (List.forall_mem_map.2 fun member mem => ?_)) nofun rfl
    intro more delimited separated
    exact ⟨fun _ => by simp [Delimited, Token.isDelimiter], nofun,
      ih member mem more delimited separated⟩

theorem separated_tokens (d : Draft) : Separated d.tokens := by
  simpa using closed_tokens d [] (by simp [Delimited]) trivial

/-- The text is a text of the value: it spells its tokens. -/
def Draft.IsTextOf (d : Draft) (text : String) : Prop :=
  d.isComplete = true ∧ Spelled d.tokens text.toList

/-- A text is read to its end exactly if it is one of a value, which is then what is read. -/
theorem read_eq_iff {text : String} {d : Draft} : read text = ⟨d, true⟩ ↔ d.IsTextOf text := by
  rw [read, readFrom_eq_iff]
  constructor
  · rintro ⟨tokens, scanned, complete⟩
    obtain ⟨isComplete, rfl⟩ := Progress.foldl_accept_iff.1 complete
    exact ⟨isComplete, Scanner.continues_of_scan .idle _ scanned⟩
  · rintro ⟨isComplete, spelled⟩
    exact ⟨d.tokens, spelled.scan (separated_tokens d), Progress.foldl_accept_iff.2 ⟨isComplete, rfl⟩⟩

end Resumable.Json
