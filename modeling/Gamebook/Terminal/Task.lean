import Gamebook.Game
import Gamebook.Json
import Gamebook.Story.Export
import Gamebook.Story.Source
import Gamebook.Terminal.Command
import Gamebook.Terminal.Console
import Gamebook.Terminal.Order
import Gamebook.Terminal.Table

/-!
# Carrying out commands

A command prints its answer, and what it complains about goes to a place of its own. A command that
fails keeps what it has printed; its error is the last complaint.
-/

namespace Gamebook

/-- Why a command fails. -/
inductive CommandError where
  | cannotRead (path : String) (fault : FileFault)
  | cannotWrite (path : String) (fault : FileFault)
  | cannotLoad (path : String) (e : FileError)
  | cannotSave (path : String) (e : FileError)
  | storyHasErrors
  | game (e : GameError)
  deriving DecidableEq, Repr

/-- The text of an error. -/
def CommandError.message : CommandError → String
  | cannotRead path fault => s!"cannot read {path}: {fault.message}"
  | cannotWrite path fault => s!"cannot write to {path}: {fault.message}"
  | cannotLoad path e => s!"cannot load session {path}: {e.message}"
  | cannotSave path e => s!"cannot save session {path}: {e.message}"
  | storyHasErrors => "story has errors"
  | game e => e.message

/-- A part of carrying out a command. -/
abbrev Task := ExceptT CommandError (StateM Console)

namespace Task

/-- Print a line. -/
def say (line : String) : Task Unit :=
  modify (Console.printLine line)

/-- Do something that may fail on the console. -/
def attempt {ε α : Type} (f : Console → Except ε α × Console) (error : ε → CommandError) :
    Task α := do
  match ← modifyGet f with
  | .ok a => return a
  | .error e => throw (error e)

/-- A number of things, named in the singular. -/
def amount (n : Nat) (noun : String) : String :=
  Decimal.text n ++ " " ++ noun ++ if n = 1 then "" else "s"

/-! ### Stories -/

/-- The complaint about the problems of a story. -/
def problemCount? (ds : List Diagnostic) : Option String :=
  let errors := (ds.filter Diagnostic.isError).length
  let warnings := ds.length - errors
  if 0 < errors then some ("  " ++ amount errors "error" ++ ", " ++ amount warnings "warning")
  else if 0 < warnings then some ("  " ++ amount warnings "warning")
  else none

/-- Read the text of a story. -/
def readStory (path : String) : Task String :=
  attempt (fun c => (c.folder.readText path, c.seek path)) (.cannotRead path)

/-- Load a story and complain about its problems. -/
def parseStory (path : String) : Task Loaded := do
  let loaded := Story.load (← readStory path)
  if let some line := problemCount? loaded.diagnostics then modify (Console.complain line)
  return loaded

/-- Load a story that has to be free of errors. -/
def loadStory (path : String) : Task Story := do
  let loaded ← parseStory path
  if loaded.hasErrors then throw .storyHasErrors
  return loaded.story

/-- The answer to a check. -/
def check (path : String) : Task Unit := do
  let story ← loadStory path
  let verbs := (story.pages.flatMap (·.verbs)).length
  say s!"  All checks passed for '{path}'."
  say ("  " ++ ", ".intercalate
    [amount story.pages.length "page", amount verbs "verb", amount story.patterns.size "pattern"])

/-- The names of a verb in a list of pages. -/
def verbNames (v : Verb) : String :=
  if 1 < v.names.length then " / ".intercalate v.names else v.visualName

/-- The row of a page in a list of pages. -/
def pageRow (p : Page) : List String :=
  [p.name, ", ".intercalate (p.verbs.map verbNames),
    if p.defaults.isEmpty then "-" else p.defaults.display]

/-- List the pages of a story. -/
def pages (path : String) : Task Unit := do
  let story ← loadStory path
  if story.pages.isEmpty then say "  No pages found."
  else
    modify (Console.print (Table.mk ["Noun", "Verbs", "Default"] (story.pages.map pageRow)).text)
    say ""
    say ("  " ++ amount story.pages.length "page")

/-- Write out a story as a JSON document. -/
def exportStory (path : String) (output : Option String) : Task Unit := do
  let story ← loadStory path
  let document := story.toJson.pretty
  match output with
  | none => say document
  | some target => do
    attempt (Console.writeFile target (document ++ "\n")) (.cannotWrite target)
    say s!"  Exported to {target}"

/-! ### Sessions -/

/-- The row of a snapshot in a history. -/
def snapshotRow (s : Session) (index : Nat) : List String :=
  let queue := (s.snapshot index).queue
  [Decimal.text index ++ (if index = s.current then " *" else ""),
    (s.snapshotAction? index).getD "(start)",
    if queue = 0 then "" else (s.bookmarks.get? (queue - 1)).getD ""]

/-- Show the history of a session. -/
def history (path : String) : Task Unit := do
  let s ← attempt (Console.loadSession path) (.cannotLoad path)
  say s!"  {s.name} [session]"
  let rows := (List.range s.snapshots.length).map (snapshotRow s)
  modify (Console.print (Table.mk ["#", "Action", "Bookmark"] rows).text)
  say ""
  say ("  " ++ amount (s.snapshots.length - 1) "action" ++ ", " ++
    amount s.bookmarks.size "bookmark")

/-- The session to play: that of a file if there is one, or else a fresh one with the name of the
story's file. -/
def openSession (storyPath : String) (path : Option String) : Task Session := do
  let fresh := Session.named (Path.stem storyPath)
  match path with
  | none => return fresh
  | some path =>
    modify (Console.seek path)
    if (← get).folder.contains path then attempt (Console.loadSession path) (.cannotLoad path)
    else return fresh

/-- Open a game. Sessions are stored beside the one that is played. -/
def openGame (storyPath : String) (path : Option String) : Task Game := do
  let story ← loadStory storyPath
  let session ← openSession storyPath path
  let directory := (path.bind Path.directory?).getD "."
  modify fun c => { c with directory }
  return { story, session }

/-! ### Playing -/

/-- Show what a verb said, and complain about what went wrong. -/
def showReading (r : Reading) : Task Unit := do
  for d in r.diagnostics do
    modify (Console.complain s!"  {d.display}")
  unless r.text.isEmpty do say r.text

/-- Take an action. -/
def act (g : Game) (noun verb : String) : Task (Except GameError Game) := do
  match g.act Console.book noun verb (← get) with
  | .error e => return .error e
  | .ok (r, g, c) => do
    set c
    showReading r
    return .ok g

/-- Take a single action, and store the session where it came from. -/
def read (storyPath noun verb : String) (path : Option String) : Task Unit := do
  let g ← openGame storyPath path
  match ← act g noun verb with
  | .error e => throw (.game e)
  | .ok g => match path with
    | none => return
    | some path => attempt (Console.saveSession path g.session) (.cannotSave path)

/-- The nouns of a story. -/
def pageNames (g : Game) : String :=
  ", ".intercalate (g.story.pages.map (·.name))

/-- Where a session stands, by the action that led there. -/
def position (s : Session) : String :=
  match s.snapshotAction? s.current with
  | some action => s!"#{Decimal.text s.current} ({action})"
  | none => "the start"

/-- The orders that a player can give. -/
def orderHelp : List String :=
  ["<noun>            list what you can do with a noun",
    "  <noun> <verb>     take an action (also <noun>:<verb>)",
    "  undo, redo        step through the history",
    "  bookmark [text]   bookmark the last action",
    "  save [FILE]       write the session",
    "  pages             list the nouns of the story",
    "  quit              leave"]

/-- Move through the history, and tell where that led. -/
def move (g : Game) (target : Option Session) (way nothing : String) : Task Game :=
  match target with
  | some session => do
    say s!"  {way} {position session}."
    return { g with session }
  | none => do
    say s!"  {nothing}"
    return g

/-- Write the session into a file. -/
def save (g : Game) (path : Option String) : Task Unit :=
  match path with
  | none => say "  No session file; use 'save FILE'."
  | some path => do
    match ← modifyGet (Console.saveSession path g.session) with
    | .ok () => say s!"  Saved to {path}."
    | .error e => say s!"  {e.message}"

/-- Put a bookmark on the last action. -/
def bookmark (g : Game) (text : Option String) : Task Game :=
  match g.session.addBookmark? text with
  | some (session, queue) => do
    say ("  Bookmarked: " ++ (session.bookmarks.get? queue).getD "")
    return { g with session }
  | none => do
    say "  Nothing to bookmark yet."
    return g

/-- List the verbs that a noun offers. -/
def look (g : Game) (noun : String) : Task Game := do
  match g.verbs Console.book noun (← get) with
  | .error e => do
    say s!"  {e.message}"
    return g
  | .ok (verbs, g, c) => do
    set c
    say (if verbs.isEmpty then s!"  Nothing to do with {noun}."
      else s!"  {noun}: " ++ ", ".intercalate verbs)
    return g

/-- Carry out an order. `path` is the file of the session, if it has one. -/
def obey (path : Option String) (g : Game) : Order → Task Game
  | .help => do
    orderHelp.forM say
    return g
  | .pages => do
    say s!"  {pageNames g}"
    return g
  | .quit => return g
  | .undo => move g g.session.undo? "Back to" "Nothing to undo."
  | .redo => move g g.session.redo? "Forward to" "Nothing to redo."
  | .save file => do
    save g (file.or path)
    return g
  | .bookmark text => bookmark g text
  | .look noun => look g noun
  | .act noun verb => do
    match ← act g noun verb with
    | .ok g => return g
    | .error e => do
      say s!"  {e.message}"
      return g

/-- Take orders, at most so many lines. -/
def takeOrders (path : Option String) : Nat → Game → Task Unit
  | 0, _ => return
  | lines + 1, g => do
    match ← modifyGet (Console.readLine "> ") with
    | none => return
    | some line => match Text.trim line.toList with
      | [] => takeOrders path lines g
      | input => match Order.ofLine input with
        | .quit => return
        | order => do
          let g ← obey path g order
          say ""
          if (← get).leaving then return
          takeOrders path lines g

/-- Play a story. There are no more orders than characters typed. -/
def play (storyPath : String) (path : Option String) : Task Unit := do
  let g ← openGame storyPath path
  say s!"  Playing {g.session.name}"
  say s!"  Pages: {pageNames g}"
  say "  Type 'help' for commands, 'quit' to exit.\n"
  takeOrders path ((← get).input.length + 1) g

end Task

/-! ### Commands -/

/-- Carry out a command. -/
def Command.task : Command → Task Unit
  | check story => Task.check story
  | pages story => Task.pages story
  | read story noun verb session => Task.read story noun verb session
  | play story session => Task.play story session
  | exportStory story output => Task.exportStory story output
  | history session => Task.history session

/-- Carry out what arguments ask for. The answer is the exit code: zero, one for a command that
fails, and two for arguments that are not understood. -/
def Console.run (arguments : List String) (c : Console) : Nat × Console :=
  match Command.ofArguments arguments with
  | .error .help => (0, c)
  | .error (.version none) => (0, c.printLine s!"{programName} {programVersion}")
  | .error (.version (some command)) =>
    (0, c.printLine s!"{programName}-{command} {programVersion}")
  | .error (.misuse e) => match e.message? with
    | some message => (2, c.complain s!"error: {message}")
    | none => (2, c)
  | .ok command => match command.task.run c with
    | (.ok (), c) => (0, c)
    | (.error e, c) => (1, c.complain s!"error: {e.message}")

end Gamebook
