import Gamebook.Play.Book
import Gamebook.Play.Operand
import Gamebook.Story

/-!
# Runs

Whatever a story does, it does to the session, to the book around it, and to the text shown to the
player. Problems are reported on the way and stop nothing.
-/

namespace Gamebook

open Script

/-! ### Problems -/

/-- What may go wrong while a story is running. -/
inductive RunProblem where
  | syntaxError (e : SyntaxError) (script : String)
  | noTarget
  | divisionByZero
  | namelessCall
  | unknownFunction (name : String) (suggestion : Option String)
  | selectionOutOfRange (index : Nat)
  | verbNotFound (noun verb : String)
  | tooDeep (noun verb : String) (limit : Nat)
  | emptyCondition (script : String)
  | strayElse
  deriving DecidableEq, Repr

/-- The text of a problem. -/
def RunProblem.message : RunProblem → String
  | syntaxError e script => s!"{e.message} in `{script}`"
  | noTarget => "instruction names no target"
  | divisionByZero => "division by zero"
  | namelessCall => "call without a function name"
  | unknownFunction name none => s!"unknown function: {name}"
  | unknownFunction name (some other) => s!"unknown function: {name} (did you mean \"{other}\"?)"
  | selectionOutOfRange index => s!"selection {Decimal.text index} is out of range"
  | verbNotFound noun verb => s!"verb not found: [{noun}:{verb}]"
  | tooDeep noun verb limit =>
    s!"[{noun}:{verb}] nested deeper than {Decimal.text limit} calls, not run"
  | emptyCondition script => s!"condition {script} has no body"
  | strayElse => "else scope without a preceding condition"

/-- What cannot be carried out is an error, what has no effect a warning. -/
def RunProblem.severity : RunProblem → Severity
  | noTarget | divisionByZero | namelessCall | selectionOutOfRange _ | emptyCondition _
  | strayElse => .warning
  | _ => .error

/-! ### Runs -/

/-- What does not change during a run. -/
structure Setting (σ : Type) where
  story : Story
  book : Book σ
  /-- How many verbs may be running at once. -/
  maxDepth : Nat

/-- What a run changes. -/
structure Stage (σ : Type) where
  session : Session
  /-- The state of the book. -/
  host : σ
  /-- The text shown. -/
  output : String := ""
  diagnostics : List Diagnostic := []
  /-- A bookmark asked for while an action is under way, with its description. -/
  bookmark : Option (Option String) := none

/-- A part of a run. -/
abbrev Run (σ α : Type) := StateM (Stage σ) α

namespace Run

variable {σ α : Type}

/-- Report a problem. -/
def report (d : Diagnostic) : Run σ Unit :=
  modify fun s => { s with diagnostics := s.diagnostics ++ [d] }

/-- Report a problem with the page of a noun. -/
def problem (noun : String) (p : RunProblem) : Run σ Unit :=
  report ⟨p.severity, ⟨0, 0⟩, p.message, some s!"in [{noun}]"⟩

/-- Show a text. -/
def print (text : String) : Run σ Unit :=
  modify fun s => { s with output := s.output ++ text }

/-- Look at the session. -/
def session : Run σ Session :=
  return (← get).session

/-- Change the session. -/
def modifySession (f : Session → Session) : Run σ Unit :=
  modify fun s => { s with session := f s.session }

/-- Look at the state of the book. -/
def ask (f : σ → α) : Run σ α :=
  return f (← get).host

/-- Change the state of the book. -/
def tell (f : σ → σ) : Run σ Unit :=
  modify fun s => { s with host := f s.host }

/-- Have the book do something that has an answer. -/
def call (f : σ → α × σ) : Run σ α := fun s =>
  let (a, host) := f s.host
  (a, { s with host })

end Run

/-! ### Values of nouns -/

namespace Setting

variable {σ : Type}

/-- The value that the story gives to a noun. -/
def defaultOf (g : Setting σ) (noun : String) : Value :=
  ((g.story.page? noun).map (·.defaults)).getD .empty

/-- The value of a noun: the session's, or else the story's. A noun that neither knows is reported,
and has the empty value. -/
def valueOf (g : Setting σ) (noun : String) : Run σ Value := do
  match (← Run.session).value? noun with
  | some v => return v
  | none => match g.story.lookup noun with
    | .ok page => return page.defaults
    | .error d => do
      Run.report d
      return .empty

end Setting

end Gamebook
