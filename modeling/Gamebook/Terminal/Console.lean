import Gamebook.File.Folder
import Gamebook.File.Path
import Gamebook.Play.Book
import Gamebook.Session.File
import Gamebook.Text.Space

/-!
# Consoles

Behind the command line a story is played on a console: what is asked of the player is printed, and
answered by the next line that is typed. Sessions are stored as files in one directory, each under
the name of its session.

A console also remembers which files were asked for, so that a run can be repeated once more is
known of them. If more can still be typed, a console whose lines have run out waits: nothing counts
that is done while it waits.
-/

namespace Gamebook

/-- A terminal with files around it. -/
structure Console where
  folder : Folder := {}
  /-- What has been typed and not yet been read. -/
  input : List Char := []
  /-- What has been printed. -/
  output : String := ""
  /-- What has been complained about. -/
  complaints : String := ""
  /-- Where sessions are stored. -/
  directory : String := "."
  /-- The story has asked to leave. -/
  leaving : Bool := false
  /-- The paths of the files that were asked for, newest first. -/
  sought : List String := []
  /-- Nothing more will be typed. -/
  ended : Bool := true
  /-- A line has been asked for that is still to be typed. -/
  waiting : Bool := false

namespace Console

/-! ### Reading and writing -/

/-- Change a console, unless it waits. -/
def update (f : Console → Console) (c : Console) : Console :=
  if c.waiting then c else f c

/-- Print a text. -/
def print (text : String) : Console → Console :=
  update fun c => { c with output := c.output ++ text }

/-- Print a line. -/
def printLine (line : String) (c : Console) : Console :=
  c.print (line ++ "\n")

/-- Complain in a line. -/
def complain (line : String) : Console → Console :=
  update fun c => { c with complaints := c.complaints ++ line ++ "\n" }

/-- Print a prompt and read a line, without the line breaks at its end. -/
def readLine (prompt : String) (c : Console) : Option String × Console :=
  let c := c.print prompt
  match c.input with
  | [] => (none, { c with waiting := !c.ended })
  | input =>
    let line := input.takeWhile (· ≠ '\n')
    let isBreak (x : Char) : Bool := x == '\r' || x == '\n'
    (some (String.ofList (line.reverse.dropWhile isBreak).reverse),
      { c with input := input.drop (line.length + 1) })

/-- Look for a file. -/
def seek (path : String) : Console → Console :=
  update fun c => { c with sought := path :: c.sought }

/-- Write a text into a file. -/
def writeFile (path text : String) (c : Console) : Except FileFault Unit × Console :=
  let c := c.seek path
  match c.folder.writeText path text with
  | .ok folder => (.ok (), c.update fun c => { c with folder })
  | .error fault => (.error fault, c)

/-! ### Sessions -/

/-- The extension of session files. -/
def sessionExtension : String := "session"

/-- Where a session of a name is stored. A name makes no directories. -/
def sessionPath (c : Console) (name : String) : String :=
  let file := name.map fun x => if x == '/' || x == '\\' then '_' else x
  Path.join c.directory (file ++ "." ++ sessionExtension)

/-- The names of the stored sessions, sorted. -/
def sessions (c : Console) : List String :=
  let found := (c.folder.list c.directory).filterMap fun file =>
    let (stem, extension) := Path.splitName file
    if extension == some sessionExtension then some stem else none
  (SortedMap.ofList (found.map fun name => (name, ()))).keys

/-- Store a session in a file. -/
def saveSession (path : String) (s : Session) (c : Console) : Except FileError Unit × Console :=
  let (result, c) := c.writeFile path s.fileText
  (result.mapError .unavailable, c)

/-- Read a session from a file. -/
def loadSession (path : String) (c : Console) : Except FileError Session × Console :=
  let c := c.seek path
  match c.folder.read path with
  | .ok bytes => (Session.ofFile bytes, c)
  | .error fault => (.error (.unavailable fault), c)

/-! ### Questions to the player -/

/-- The options, numbered from one. -/
def optionLines (options : List String) : List String :=
  options.zipIdx.map fun (option, i) => "  " ++ Decimal.text (i + 1) ++ ". " ++ option

/-- Have the player pick an option by its number. -/
def select (options : List String) (c : Console) : Option Nat × Console :=
  if options.isEmpty then (none, c)
  else
    let (answer, c) := ((optionLines options).foldl (fun c line => c.printLine line) c).readLine
      "choose> "
    let number := answer.bind fun line => Decimal.toIndex? (Text.trim line.toList)
    ((number.filter fun n => 0 < n && n ≤ options.length).map (· - 1), c)

/-- Have the player agree to a message, by a line that starts with a `y`. -/
def agree (message : String) (c : Console) : Bool × Console :=
  let (answer, c) := c.readLine (message ++ " [y/n] ")
  (answer.any fun line => (Text.trim line.toList).head?.any fun x => x == 'y' || x == 'Y', c)

/-- The book of a console. -/
def book : Book Console where
  play asset c := c.printLine s!"  [playing {asset}]"
  stop asset c := c.printLine s!"  [stopped {asset}]"
  select := select
  openMenu name c := c.printLine s!"  [menu: {name}]"
  closeMenu c := c
  openBook _ c := (false, c)
  closeBook c := c
  quit c := { c with leaving := true }
  books _ := []
  inGame _ := true
  sessions := sessions
  save session c :=
    let (result, c) := c.saveSession (c.sessionPath session.name) session
    (result.isOk, c)
  load name c :=
    let (result, c) := c.loadSession (c.sessionPath name)
    (result.toOption, c)
  dialog := agree
  input prompt := readLine (prompt ++ " ")

end Console

end Gamebook
