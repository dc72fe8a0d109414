import Gamebook.File.Fault
import Gamebook.Session
import Gamebook.Text.Quoted

/-!
# Session files

A session is stored as lines of text:

* its name;
* the number of actions, and a line for each;
* the number of asset sets, and for each the names in it and an empty line;
* the number of variables, and for each its name, its position, its literals and an empty line;
* the changes as `variable,length`, and an empty line;
* the snapshots as `queue,assets,changes`, without the start of the story, and an empty line;
* the bookmarks, as the position of the action and the description, and an empty line;
* `END`.

`Session.fileText` writes a file and `Session.ofFile` reads one. Reading checks that positions and
lengths fit the logs, and names the line at which it stopped.
-/

namespace Gamebook

namespace Session

/-! ### Writing -/

/-- The last line of a file. -/
def endMarker : String := "END"

/-- The lines for a variable at a position. -/
def variableLines (v : Variable) (id : Nat) : List String :=
  v.name :: Decimal.text id :: v.values ++ [""]

/-- The line for a snapshot. -/
def snapshotLine (s : Snapshot) : String :=
  s!"{Decimal.text s.queue},{Decimal.text s.assets},{Decimal.text s.changes}"

/-- The lines of a session's file. -/
def fileLines (s : Session) : List String :=
  let h := s.history
  s.name ::
    Decimal.text h.queue.length :: h.queue ++
    Decimal.text h.assets.length :: h.assets.flatMap (fun set => set ++ [""]) ++
    Decimal.text h.tracked.length :: h.tracked.zipIdx.flatMap (fun (v, id) => variableLines v id) ++
    h.changes.map (fun (id, length) => s!"{Decimal.text id},{Decimal.text length}") ++ [""] ++
    (s.snapshots.drop 1).map snapshotLine ++ [""] ++
    s.bookmarks.entries.flatMap (fun (queue, text) => [Decimal.text queue, text]) ++ [""] ++
    [endMarker]

/-- The text of a session's file. -/
def fileText (s : Session) : String :=
  String.join (s.fileLines.map fun line => line ++ "\n")

end Session

/-! ### What may be wrong with a file -/

/-- A part of a session file. -/
inductive FilePart where
  | sessionName
  | queueCount
  | queueEntry
  | assetCount
  | assetName
  | variableCount
  | variableName
  | variableIndex
  | variableValue
  | changePair
  | changeIndex
  | changeLength
  | snapshot
  | bookmarkIndex
  | bookmarkDescription
  | endMarker
  deriving DecidableEq, Repr

/-- The name of a part. -/
def FilePart.text : FilePart → String
  | sessionName => "session name"
  | queueCount => "queue entry count"
  | queueEntry => "queue entry"
  | assetCount => "asset entry count"
  | assetName => "asset name"
  | variableCount => "tracked variable count"
  | variableName => "variable name"
  | variableIndex => "variable index"
  | variableValue => "variable value"
  | changePair => "change pair"
  | changeIndex => "index"
  | changeLength => "length"
  | snapshot => "snapshot"
  | bookmarkIndex => "bookmark index"
  | bookmarkDescription => "bookmark description"
  | endMarker => "end marker"

/-- A fault in the layout of a file. -/
inductive LayoutFault where
  | missing (part : FilePart)
  | badNumber (part : FilePart) (found : String)
  | badVariableIndex (expected found : Nat)
  | badPair (found : String)
  | changeOutside (line : String)
  | badSnapshot (found : String)
  | snapshotOutOfOrder (line : String)
  | badEnd (found : String)
  deriving DecidableEq, Repr

/-- The text of a fault. -/
def LayoutFault.message : LayoutFault → String
  | missing part => s!"unexpected end of file, expected {part.text}"
  | badNumber part found => s!"expected {part.text}, found {Text.quoted found.toList}"
  | badVariableIndex expected found =>
    s!"expected variable index {Decimal.text expected}, found {Decimal.text found}"
  | badPair found => s!"expected `a,b`, found {Text.quoted found.toList}"
  | changeOutside line => s!"change {line} points outside its history"
  | badSnapshot found =>
    s!"expected `queue,assets,changes`, found {Text.quoted found.toList}"
  | snapshotOutOfOrder line => s!"snapshot {line} is out of order or range"
  | badEnd found =>
    s!"expected {Text.quoted Session.endMarker.toList}, found {Text.quoted found.toList}"

/-- Why a session could not be read. -/
inductive FileError where
  /-- The file cannot be read at all, or not as text. -/
  | unavailable (fault : FileFault)
  /-- The layout is wrong; the line at which reading stopped is counted from 1. -/
  | layout (line : Nat) (fault : LayoutFault)
  deriving DecidableEq, Repr

/-- The text of an error. -/
def FileError.message : FileError → String
  | unavailable fault => s!"session i/o failed: {fault.message}"
  | layout line fault =>
    s!"malformed session file at line {Decimal.text line}: {fault.message}"

namespace Session

/-! ### Lines -/

/-- The parts of a text between line feeds; what follows the last one is a line if it is not
empty. The text is given in characters or in bytes. -/
def splitLines {α : Type} (isFeed : α → Bool) : List α → List (List α)
  | [] => []
  | u :: rest =>
    if isFeed u then [] :: splitLines isFeed rest
    else match splitLines isFeed rest with
      | [] => [[u]]
      | line :: more => (u :: line) :: more

/-- A line without the carriage returns at its end. -/
def withoutReturns (line : List Char) : String :=
  String.ofList (line.reverse.dropWhile (· == '\r')).reverse

/-- The text of a line given in bytes; nothing if it is no text. -/
def lineText? (bytes : List UInt8) : Option String :=
  (String.fromUTF8? ⟨bytes.toArray⟩).map fun line => withoutReturns line.toList

/-- A place in a file. -/
structure Reader where
  /-- The lines to come; one that is no text fails when it is read. -/
  rest : List (Option String)
  /-- The number of lines read. -/
  line : Nat := 0

/-- A part of the reading of a file. -/
abbrev Reading := StateT Reader (Except FileError)

/-- Stop at the line read last. -/
def stop {α : Type} (fault : LayoutFault) : Reading α := fun r =>
  .error (.layout r.line fault)

/-- The next line. -/
def nextLine (part : FilePart) : Reading String := fun r =>
  match r.rest with
  | [] => .error (.layout (r.line + 1) (.missing part))
  | none :: _ => .error (.unavailable .notText)
  | some line :: rest => .ok (line, ⟨rest, r.line + 1⟩)

/-- The number that a text stands for. -/
def readNumber (part : FilePart) (text : String) : Reading Nat :=
  match Decimal.toIndex? (Text.trim text.toList) with
  | some n => return n
  | none => stop (.badNumber part text)

/-- A line that holds a number. -/
def numberLine (part : FilePart) : Reading Nat := do
  readNumber part (← nextLine part)

/-- Read so many things. -/
def readMany {α : Type} (read : Nat → Reading α) (first : Nat) : Nat → Reading (List α)
  | 0 => return []
  | n + 1 => do
    let a ← read first
    return a :: (← readMany read (first + 1) n)

/-- The lines up to an empty one, of `line` that are read before. -/
def linesUntilBlank (part : FilePart) (line : Nat) :
    List (Option String) → Except FileError (List String × Reader)
  | [] => .error (.layout (line + 1) (.missing part))
  | none :: _ => .error (.unavailable .notText)
  | some text :: rest =>
    if text.isEmpty then .ok ([], ⟨rest, line + 1⟩)
    else (linesUntilBlank part (line + 1) rest).map fun (more, r) => (text :: more, r)

/-- Read lines up to an empty one. -/
def untilBlank (part : FilePart) : Reading (List String) := fun r =>
  linesUntilBlank part r.line r.rest

/-! ### Parts -/

/-- The variable that must be at a position. -/
def readVariable (expected : Nat) : Reading Variable := do
  let name ← nextLine .variableName
  let index ← numberLine .variableIndex
  if index ≠ expected then stop (.badVariableIndex expected index)
  return { name, values := ← untilBlank .variableValue }

/-- The text in front of the first comma, and behind it. -/
def splitComma (s : String) : Option (String × String) :=
  let cs := s.toList
  match (cs.dropWhile (· != ',')) with
  | [] => none
  | _ :: behind => some (String.ofList (cs.takeWhile (· != ',')), String.ofList behind)

/-- A change, which must fit the history of its variable. -/
def readChange (tracked : List Variable) (line : String) : Reading (Nat × Nat) :=
  match splitComma line with
  | none => stop (.badPair line)
  | some (a, b) => do
    let id ← readNumber .changeIndex a
    let length ← readNumber .changeLength b
    if (tracked[id]?).any fun v => 1 ≤ length && length ≤ v.values.length then
      return (id, length)
    else stop (.changeOutside line)

/-- The numbers of a snapshot. -/
def snapshot? (line : String) : Option Snapshot := do
  let number (s : String) := Decimal.toIndex? (Text.trim s.toList)
  let (queue, rest) ← splitComma line
  let (assets, changes) ← splitComma rest
  return ⟨← number queue, ← number assets, ← number changes⟩

/-- Snapshots, which must be in order and within the lengths of the logs. -/
def readSnapshots (tip previous : Snapshot) : List String → Reading (List Snapshot)
  | [] => return []
  | line :: rest => match snapshot? line with
    | none => stop (.badSnapshot line)
    | some s =>
      if s.follows previous && tip.follows s then do
        return s :: (← readSnapshots tip s rest)
      else stop (.snapshotOutOfOrder line)

/-- Bookmarks up to an empty line. -/
def bookmarksFrom (line : Nat) (found : SortedMap Nat String) :
    List (Option String) → Except FileError (SortedMap Nat String × Reader)
  | [] => .error (.layout (line + 1) (.missing .bookmarkIndex))
  | none :: _ => .error (.unavailable .notText)
  | some index :: rest =>
    if index.isEmpty then .ok (found, ⟨rest, line + 1⟩)
    else match Decimal.toIndex? (Text.trim index.toList) with
      | none => .error (.layout (line + 1) (.badNumber .bookmarkIndex index))
      | some queue => match rest with
        | [] => .error (.layout (line + 2) (.missing .bookmarkDescription))
        | none :: _ => .error (.unavailable .notText)
        | some description :: rest => bookmarksFrom (line + 2) (found.insert queue description) rest

/-- Read the bookmarks. -/
def readBookmarks : Reading (SortedMap Nat String) := fun r =>
  bookmarksFrom r.line .empty r.rest

/-- Read a session. -/
def readSession : Reading Session := do
  let name ← nextLine .sessionName
  let queue ← readMany (fun _ => nextLine .queueEntry) 0 (← numberLine .queueCount)
  let assets ← readMany (fun _ => untilBlank .assetName) 0 (← numberLine .assetCount)
  let tracked ← readMany readVariable 0 (← numberLine .variableCount)
  let changes ← (← untilBlank .changePair).mapM (readChange tracked)
  let tip : Snapshot := ⟨queue.length, assets.length, changes.length⟩
  let snapshots ← readSnapshots tip .start (← untilBlank .snapshot)
  let bookmarks ← readBookmarks
  let last ← nextLine .endMarker
  if last ≠ endMarker then stop (.badEnd last)
  return .ofLogs name (.ofLogs queue assets tracked changes) snapshots bookmarks

/-- Read a session from lines of which some may be no text. -/
def ofLines (lines : List (Option String)) : Except FileError Session :=
  (readSession ⟨lines, 0⟩).map (·.1)

/-- Read a session from the bytes of a file. -/
def ofFile (bytes : List UInt8) : Except FileError Session :=
  ofLines ((splitLines (· == 10) bytes).map lineText?)

/-- Read a session from the text of a file. -/
def ofFileText (text : String) : Except FileError Session :=
  ofLines ((splitLines (· == '\n') text.toList).map fun line => some (withoutReturns line))

end Session

end Gamebook
