import Gamebook.Play.Run

/-!
# Functions

The functions that scripts can call, such as `Size(@basket)`. A function gets the value of its
arguments and answers with another one. Those about the history work on the session; those that
reach outside go to the book.
-/

namespace Gamebook

/-- The functions of scripts. -/
inductive Function where
  /-- The number of atoms. -/
  | size
  /-- Switch assets on. -/
  | play
  /-- Switch assets off. -/
  | stop
  /-- Put each atom between angle brackets. -/
  | keyword
  /-- Let the player pick an atom. -/
  | selectValue
  /-- Show the arguments. -/
  | print
  | closeMenu
  | openMenu
  | closeBook
  | openBook
  | quit
  /-- The titles of the books that can be opened. -/
  | getBooks
  /-- Whether a play-through is under way. -/
  | isInGame
  /-- The names of the stored sessions. -/
  | getSessions
  /-- The name of the session. -/
  | getSessionName
  /-- Store the session. -/
  | saveSession
  /-- Store the session under another name. -/
  | branchSession
  /-- Go on with a stored session. -/
  | loadSession
  /-- Start over. -/
  | newSession
  /-- Put a bookmark on the action. -/
  | bookmark
  /-- Put a bookmark on the action, with a description. -/
  | userBookmark
  /-- Go to a snapshot. -/
  | loadSnapshot
  /-- The snapshots with their actions. -/
  | getSnapshots
  /-- The bookmarks with their descriptions. -/
  | getBookmarks
  /-- The position among the snapshots. -/
  | getSnapshotIndex
  /-- Show a message and take an answer. -/
  | dialog
  /-- Ask the player for text. -/
  | input
  deriving DecidableEq, Repr

namespace Function

/-- The functions with the names by which scripts call them. -/
def catalog : List (Function × String) :=
  [(size, "Size"), (play, "Play"), (stop, "Stop"), (keyword, "Keyword"),
    (selectValue, "SelectValue"), (print, "Print"), (closeMenu, "CloseMenu"),
    (openMenu, "OpenMenu"), (closeBook, "CloseBook"), (openBook, "OpenBook"), (quit, "Quit"),
    (getBooks, "GetBooks"), (isInGame, "IsInGame"), (getSessions, "GetSessions"),
    (getSessionName, "GetSessionName"), (saveSession, "SaveSession"),
    (branchSession, "BranchSession"), (loadSession, "LoadSession"), (newSession, "NewSession"),
    (bookmark, "Bookmark"), (userBookmark, "UserBookmark"), (loadSnapshot, "LoadSnapshot"),
    (getSnapshots, "GetSnapshots"), (getBookmarks, "GetBookmarks"),
    (getSnapshotIndex, "GetSnapshotIndex"), (dialog, "Dialog"), (input, "Input")]

/-- The names of the functions. -/
def names : List String :=
  catalog.map (·.2)

/-- The function of a name. -/
def ofName? (name : String) : Option Function :=
  (catalog.find? fun entry => entry.2 == name).map (·.1)

variable {σ : Type}

/-- Switch assets on or off, one after the other. -/
def switchAssets (b : Book σ) (on : Bool) (assets : List String) : Run σ Unit :=
  assets.forM fun asset => do
    Run.modifySession fun s => s.setAsset asset on
    Run.tell (if on then b.play asset else b.stop asset)

/-- Put a bookmark on the action under way, or else on the last one. The position of the action in
the queue is the answer. -/
def placeBookmark (description : Option String) : Run σ Operand := do
  let s ← Run.session
  if s.pending.isSome then
    modify fun stage => { stage with bookmark := some description }
    return .ofNat s.history.queue.length
  else match s.addBookmark? description with
    | some (t, queue) => do
      Run.modifySession fun _ => t
      return .ofNat queue
    | none => return {}

/-- Give the session another name, unless that is empty. -/
def renameTo (name : String) (s : Session) : Session :=
  if name.isEmpty then s else s.rename name

/-- The snapshots but the start of the story, each with its action. -/
def snapshotList (s : Session) : List String :=
  (List.range' 1 (s.snapshots.length - 1)).map fun i =>
    Decimal.text i ++ " " ++ (s.snapshotAction? i).getD ""

/-- Call a function from the page of a noun. -/
def call (b : Book σ) (noun : String) (f : Function) (args : Operand) : Run σ Operand := do
  let atoms := args.value.atoms
  let first := atoms.headD ""
  match f with
  | size => return .ofNat atoms.length
  | play => do
    switchAssets b true atoms
    return args
  | stop => do
    switchAssets b false atoms
    return args
  | keyword => return .ofAtoms (atoms.map fun atom => s!"<{atom}>")
  | selectValue => do
    match ← Run.call (b.select atoms) with
    | none => return {}
    | some i => match atoms[i]? with
      | some choice => return .ofAtoms [choice]
      | none => do
        Run.problem noun (.selectionOutOfRange i)
        return {}
  | print => do
    unless args.value.isEmpty do Run.print args.value.display
    return args
  | openMenu => do
    Run.tell (b.openMenu first)
    return args
  | closeMenu => do
    Run.tell b.closeMenu
    return args
  | openBook => return .ofBool (← Run.call (b.openBook first))
  | closeBook => do
    Run.tell b.closeBook
    return args
  | quit => do
    Run.tell b.quit
    return args
  | getBooks => return .ofAtoms (← Run.ask b.books)
  | isInGame => return .ofBool (← Run.ask b.inGame)
  | getSessions => return .ofAtoms (← Run.ask b.sessions)
  | getSessionName => return .ofAtoms [(← Run.session).name]
  | saveSession => return .ofBool (← Run.call (b.save (← Run.session)))
  | branchSession => do
    Run.modifySession (renameTo first)
    return .ofBool (← Run.call (b.save (← Run.session)))
  | loadSession => do
    match ← Run.call (b.load first) with
    | some s => do
      Run.modifySession fun _ => s
      return .ofBool true
    | none => return .ofBool false
  | newSession => do
    Run.modifySession fun s => renameTo first s.reset
    return .ofBool true
  | bookmark => placeBookmark none
  | userBookmark => placeBookmark (some (" ".intercalate atoms))
  | loadSnapshot => do
    let n := args.value.integer.toInt
    let s ← Run.session
    match if n < 0 then none else s.loadSnapshot? n.toNat with
    | some t => do
      Run.modifySession fun _ => t
      return .ofBool true
    | none => return .ofBool false
  | getSnapshots => return .ofAtoms (snapshotList (← Run.session))
  | getBookmarks => return .ofAtoms ((← Run.session).bookmarks.entries.map fun (queue, text) =>
      s!"{Decimal.text queue} {text}")
  | getSnapshotIndex => return .ofNat (← Run.session).current
  | dialog => return .ofBool (← Run.call (b.dialog args.value.display))
  | input => do
    match ← Run.call (b.input (" ".intercalate atoms)) with
    | some line => return .ofAtoms [String.ofList (Text.trim line.toList)]
    | none => return {}

end Function

end Gamebook
