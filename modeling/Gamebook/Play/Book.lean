import Gamebook.Session

/-!
# Books

A story is played inside of some application, its *book*. Some functions of scripts reach out to
it: they play sounds, open menus, store sessions, and ask the player. A book is given by what it
does to a state of its own.
-/

namespace Gamebook

/-- What a story can ask of the application around it; `σ` is the application's state. -/
structure Book (σ : Type) where
  /-- An asset was switched on. -/
  play (asset : String) : σ → σ
  /-- An asset was switched off. -/
  stop (asset : String) : σ → σ
  /-- Let the player pick an option by its position. -/
  select (options : List String) : σ → Option Nat × σ
  openMenu (name : String) : σ → σ
  closeMenu : σ → σ
  /-- Open another book, if there is one of that name. -/
  openBook (name : String) : σ → Bool × σ
  closeBook : σ → σ
  /-- Leave the application. -/
  quit : σ → σ
  /-- The titles of the books that can be opened. -/
  books : σ → List String
  /-- Whether a play-through is under way. -/
  inGame : σ → Bool
  /-- The names of the stored sessions. -/
  sessions : σ → List String
  /-- Store a session under its name, if that is possible. -/
  save (session : Session) : σ → Bool × σ
  /-- A stored session. -/
  load (name : String) : σ → Option Session × σ
  /-- Show a message, and take an answer. -/
  dialog (message : String) : σ → Bool × σ
  /-- Ask the player for a line of text. -/
  input (prompt : String) : σ → Option String × σ

/-- The book that does nothing: it takes the first option, agrees to every message and stores no
sessions. -/
def Book.silent : Book Unit where
  play _ _ := ()
  stop _ _ := ()
  select options _ := (if options.isEmpty then none else some 0, ())
  openMenu _ _ := ()
  closeMenu _ := ()
  openBook _ _ := (false, ())
  closeBook _ := ()
  quit _ := ()
  books _ := []
  inGame _ := true
  sessions _ := []
  save _ _ := (false, ())
  load _ _ := (none, ())
  dialog _ _ := (true, ())
  input _ _ := (none, ())

end Gamebook
