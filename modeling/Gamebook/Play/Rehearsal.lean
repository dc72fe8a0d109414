import Gamebook.Play.Book
import Gamebook.Session.File

/-!
# Rehearsals

A rehearsal is a book whose player follows a script: the answers are prepared, and what the story
asks for is noted down. Stories are tried out in it. When the prepared answers have run out, the
player picks nothing, types nothing, and agrees to nothing.

Sessions are stored as the texts of their files, so a stored session comes back as a reader of
files would see it.
-/

namespace Gamebook

/-- Something that a story asks of its book. -/
inductive Request where
  | play (asset : String)
  | stop (asset : String)
  | select (options : List String)
  | openMenu (name : String)
  | closeMenu
  | openBook (name : String)
  | closeBook
  | quit
  | save (name : String)
  | load (name : String)
  | dialog (message : String)
  | input (prompt : String)
  deriving DecidableEq, Repr

/-- The note of a request: what it is, and what it is about. -/
def Request.note : Request → String
  | play asset => s!"play {asset}"
  | stop asset => s!"stop {asset}"
  | select options => "select " ++ "|".intercalate options
  | openMenu name => s!"open_menu {name}"
  | closeMenu => "close_menu"
  | openBook name => s!"open_book {name}"
  | closeBook => "close_book"
  | quit => "quit"
  | save name => s!"save {name}"
  | load name => s!"load {name}"
  | dialog message => s!"dialog {message}"
  | input prompt => s!"input {prompt}"

/-- The prepared answers, and what has been asked. -/
structure Rehearsal where
  /-- The options that the player picks. -/
  picks : List (Option Nat) := []
  /-- The lines that the player types. -/
  lines : List (Option String) := []
  /-- Whether the player agrees to messages. -/
  agreements : List Bool := []
  /-- The titles of the books that can be opened. -/
  books : List String := []
  inGame : Bool := false
  /-- Whether sessions can be stored. -/
  canSave : Bool := false
  /-- The files of the stored sessions, by name. -/
  store : SortedMap String String := {}
  /-- What the story has asked for. -/
  requests : List Request := []

namespace Rehearsal

/-- Note down a request. -/
def noting (r : Rehearsal) (q : Request) : Rehearsal :=
  { r with requests := r.requests ++ [q] }

/-- The session stored under a name. A file that is malformed holds none. -/
def stored? (r : Rehearsal) (name : String) : Option Session :=
  (r.store.get? name).bind fun text => (Session.ofFileText text).toOption

/-- The book of a rehearsal. -/
def book : Book Rehearsal where
  play asset r := r.noting (.play asset)
  stop asset r := r.noting (.stop asset)
  select options r :=
    (r.picks.headD none, { r.noting (.select options) with picks := r.picks.tail })
  openMenu name r := r.noting (.openMenu name)
  closeMenu r := r.noting .closeMenu
  openBook name r := (r.books.contains name, r.noting (.openBook name))
  closeBook r := r.noting .closeBook
  quit r := r.noting .quit
  books := books
  inGame := inGame
  sessions r := r.store.keys
  save session r :=
    let noted := r.noting (.save session.name)
    let store := if r.canSave then r.store.insert session.name session.fileText else r.store
    (r.canSave, { noted with store })
  load name r := (r.stored? name, r.noting (.load name))
  dialog message r :=
    (r.agreements.headD false, { r.noting (.dialog message) with agreements := r.agreements.tail })
  input prompt r := (r.lines.headD none, { r.noting (.input prompt) with lines := r.lines.tail })

end Rehearsal

end Gamebook
