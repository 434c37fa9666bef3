import Resumable.Json.Draft
import Resumable.Json.Scanner

/-!
# Reading a JSON text

`read` takes a text apart into tokens and puts the tokens together into a draft. The containers that
are open are kept in a list, innermost first, so the tokens are taken one at a time and a text may
nest to any depth.
-/

namespace Resumable.Json

/-- A container that is open, and what may come next in it. Items and members are kept with the
last one first. -/
inductive Frame where
  /-- An array was opened. -/
  | firstItem
  /-- A comma was read in an array. -/
  | nextItem (items : List Draft)
  /-- An item was read. -/
  | afterItem (items : List Draft)
  /-- An object was opened. -/
  | firstKey
  /-- A comma was read in an object. -/
  | nextKey (members : List (Option String × Draft))
  /-- A key was read. -/
  | afterKey (members : List (Option String × Draft)) (key : Option String)
  /-- The colon after a key was read. -/
  | memberValue (members : List (Option String × Draft)) (key : Option String)
  /-- A member was read. -/
  | afterMember (members : List (Option String × Draft))
  deriving Repr

namespace Frame

/-- The container of a frame when nothing more of it can be read, where `inner` is the unfinished
value in it. -/
def abandon (inner : Option Draft) : Frame → Draft
  | .firstItem => .array inner.toList false
  | .nextItem items | .afterItem items => .array (items.reverse ++ inner.toList) false
  | .firstKey => .object [] false
  | .nextKey members | .afterMember members => .object members.reverse false
  | .afterKey members key | .memberValue members key =>
    .object (members.reverse ++ [(key, inner.getD .missing)]) false

end Frame

/-- How far a value was read. -/
inductive Progress where
  /-- Inside these containers, or before the value when there are none. -/
  | within (frames : List Frame)
  /-- The value was read, and nothing but blanks after it. -/
  | complete (root : Draft)
  /-- A fault was met, inside the value or after it. -/
  | stopped (root : Draft)
  deriving Repr

namespace Progress

/-- Puts a value where one may stand. -/
def place (v : Draft) : List Frame → Option Progress
  | [] => some (.complete v)
  | .firstItem :: rest => some (.within (.afterItem [v] :: rest))
  | .nextItem items :: rest => some (.within (.afterItem (v :: items) :: rest))
  | .memberValue members key :: rest => some (.within (.afterMember ((key, v) :: members) :: rest))
  | _ => none

/-- Opens a container where a value may stand. -/
def enter (inner : Frame) : List Frame → Option Progress
  | [] => some (.within [inner])
  | frame :: rest =>
    match frame with
    | .firstItem | .nextItem _ | .memberValue _ _ => some (.within (inner :: frame :: rest))
    | _ => none

/-- Takes a token inside the open containers, if it may stand there. -/
def feed? (frames : List Frame) (token : Token) : Option Progress :=
  match token with
  | .null => place .null frames
  | .boolean b => place (.boolean b) frames
  | .number n => place (.number n) frames
  | .openArray => enter .firstItem frames
  | .openObject => enter .firstKey frames
  | .string s =>
    match frames with
    | .firstKey :: rest => some (.within (.afterKey [] s :: rest))
    | .nextKey members :: rest => some (.within (.afterKey members s :: rest))
    | _ => place (.string s) frames
  | .colon =>
    match frames with
    | .afterKey members key :: rest => some (.within (.memberValue members key :: rest))
    | _ => none
  | .comma =>
    match frames with
    | .afterItem items :: rest => some (.within (.nextItem items :: rest))
    | .afterMember members :: rest => some (.within (.nextKey members :: rest))
    | _ => none
  | .closeArray =>
    match frames with
    | .firstItem :: rest => place (.array [] true) rest
    | .afterItem items :: rest => place (.array items.reverse true) rest
    | _ => none
  | .closeObject =>
    match frames with
    | .firstKey :: rest => place (.object [] true) rest
    | .afterMember members :: rest => place (.object members.reverse true) rest
    | _ => none

/-- The draft of the open containers when nothing more of them can be read. -/
def abandon (frames : List Frame) : Draft :=
  (frames.foldl (fun inner frame => some (frame.abandon inner)) none).getD .missing

/-- Stops at a fault. -/
def stop : Progress → Progress
  | .within frames => .stopped (abandon frames)
  | .complete root => .stopped root
  | .stopped root => .stopped root

/-- Takes a token. -/
def accept (p : Progress) (token : Token) : Progress :=
  match p with
  | .within frames => (feed? frames token).getD p.stop
  | _ => p.stop

end Progress

/-- A text that was read: what it holds, and whether that is all of it. -/
structure Reading where
  root : Draft
  exact : Bool
  deriving Repr

/-- What was read so far, when the text ends here. -/
def Progress.reading : Progress → Reading
  | .within frames => ⟨abandon frames, false⟩
  | .complete root => ⟨root, true⟩
  | .stopped root => ⟨root, false⟩

/-- Reads the rest of a text. -/
def readFrom (scanner : Scanner) (progress : Progress) : List Char → Reading
  | [] =>
    match scanner.finish? with
    | some tokens => (tokens.foldl Progress.accept progress).reading
    | none => progress.stop.reading
  | c :: rest =>
    let (tokens, next) := scanner.step c
    let progress := tokens.foldl Progress.accept progress
    match progress, next with
    | .stopped root, _ => ⟨root, false⟩
    | _, none => progress.stop.reading
    | _, some scanner => readFrom scanner progress rest

/-- Reads a text. -/
def read (text : String) : Reading := readFrom .idle (.within []) text.toList

/-- The value of a text that is nothing but JSON, at any depth. -/
def ofText? (text : String) : Option Json :=
  let reading := read text
  if reading.exact then reading.root.value? text.length else none

end Resumable.Json
