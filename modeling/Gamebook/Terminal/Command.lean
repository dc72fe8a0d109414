import Gamebook.Terminal.Controls

/-!
# Command lines

A command is named by the first argument, behind options that go with every command. Its operands
come in a fixed order, its options anywhere between them. Behind `--` every argument is an operand.

Arguments are read from left to right, and the first one that does not fit is reported. The value
of an operand or an option is looked at when the argument behind it has been read.
-/

namespace Gamebook

/-- What the program can be asked to do. -/
inductive Command where
  /-- Load a story and report its problems. -/
  | check (story : String)
  /-- List the pages of a story. -/
  | pages (story : String)
  /-- Take a single action, going on with a session if there is one. -/
  | read (story noun verb : String) (session : Option String)
  /-- Play a story. -/
  | play (story : String) (session : Option String)
  /-- Write out a story as a JSON document. -/
  | exportStory (story : String) (output : Option String)
  /-- Show the snapshots of a session. -/
  | history (session : String)
  deriving DecidableEq, Repr

/-- Why arguments are not understood. -/
inductive UsageError where
  | noArguments
  | missingCommand
  | unknownCommand (name : String)
  | unexpectedArgument (argument : String)
  | missingValue (parameter : String)
  | surplusValue (value parameter : String)
  | repeatedOption (parameter : String)
  | missingOperands
  deriving DecidableEq, Repr

/-- The name of the program. -/
def programName : String := "folio"

/-- The version of the program. -/
def programVersion : String := "0.1.0"

/-- The text of an error; without any arguments there is nothing to complain about. -/
def UsageError.message? : UsageError → Option String
  | noArguments => none
  | missingCommand => some s!"'{programName}' requires a subcommand but one was not provided"
  | unknownCommand name => some s!"unrecognized subcommand '{withoutControls name}'"
  | unexpectedArgument argument =>
    some s!"unexpected argument '{withoutControls argument}' found"
  | missingValue parameter => some s!"a value is required for '{parameter}' but none was supplied"
  | surplusValue value parameter =>
    some (s!"unexpected value '{withoutControls value}' for '{parameter}' found; " ++
      "no more were expected")
  | repeatedOption parameter => some s!"the argument '{parameter}' cannot be used multiple times"
  | missingOperands => some "the following required arguments were not provided:"

/-- What arguments ask for, other than a command. -/
inductive Halt where
  | help
  /-- Tell the version, under the name of the command it was asked of. -/
  | version (command : Option String)
  | misuse (e : UsageError)
  deriving DecidableEq, Repr

namespace Command

/-! ### Forms of commands -/

/-- An operand in a form. -/
structure OperandForm where
  name : String
  /-- Whether it is a path, which cannot be empty. -/
  isPath : Bool

/-- An option in a form. Its value is a path. -/
structure OptionForm where
  short : Char
  long : String
  value : String

/-- The form of a command. -/
structure Form where
  name : String
  operands : List OperandForm
  option : Option OptionForm := none

/-- How an operand is shown to a reader. -/
def OperandForm.parameter (o : OperandForm) : String := s!"<{o.name}>"

/-- How an option is shown to a reader. -/
def OptionForm.parameter (o : OptionForm) : String := s!"--{o.long} <{o.value}>"

/-- The story that a command is about. -/
def storyOperand : OperandForm := ⟨"STORY", true⟩

/-- The session to go on with. -/
def sessionOption : OptionForm := ⟨'s', "session", "SESSION"⟩

/-- The forms of the commands. -/
def forms : List Form :=
  [⟨"check", [storyOperand], none⟩,
    ⟨"pages", [storyOperand], none⟩,
    ⟨"read", [storyOperand, ⟨"NOUN", false⟩, ⟨"VERB", false⟩], some sessionOption⟩,
    ⟨"play", [storyOperand], some sessionOption⟩,
    ⟨"export", [storyOperand], some ⟨'o', "output", "OUTPUT"⟩⟩,
    ⟨"history", [⟨"SESSION", true⟩], none⟩]

/-- The form of a name. -/
def form? (name : String) : Option Form :=
  forms.find? fun f => f.name == name

/-- The command of a form that has been filled in. -/
def ofForm? (name : String) (operands : List String) (option : Option String) : Option Command :=
  match name, operands with
  | "check", [s] => some (check s)
  | "pages", [s] => some (pages s)
  | "read", [s, noun, verb] => some (read s noun verb option)
  | "play", [s] => some (play s option)
  | "export", [s] => some (exportStory s option)
  | "history", [s] => some (history s)
  | _, _ => none

/-! ### Reading arguments -/

/-- An argument that has been read and not yet been looked at. -/
inductive Pending where
  | nothing
  | operand (value : String)
  /-- An option, and its value if that has been read. -/
  | option (value : Option String)

/-- What has been read so far. -/
structure Progress where
  form : Option Form := none
  operands : List String := []
  option : Option String := none
  verbose : Bool := false
  pending : Pending := .nothing
  /-- Whether `--` has been read. -/
  literal : Bool := false

namespace Progress

/-- The form of the option at hand, if the form has one. -/
def optionForm? (p : Progress) : Option OptionForm :=
  p.form.bind (·.option)

/-- The operands that have been read. -/
def operandCount (p : Progress) : Nat :=
  match p.pending with
  | .operand _ => p.operands.length + 1
  | _ => p.operands.length

/-- The form of the operand with a number. -/
def operandForm? (p : Progress) (i : Nat) : Option OperandForm :=
  p.form.bind fun f => f.operands[i]?

/-- Look at what is pending. -/
def settle (p : Progress) : Except Halt Progress :=
  let done := { p with pending := .nothing }
  match p.pending with
  | .nothing => .ok p
  | .operand value => match p.operandForm? p.operands.length with
    | none => .error (.misuse (.unexpectedArgument value))
    | some o =>
      if o.isPath && value.isEmpty then .error (.misuse (.missingValue o.parameter))
      else .ok { done with operands := p.operands ++ [value] }
  | .option value =>
    let parameter := (p.optionForm?.map (·.parameter)).getD ""
    match value with
    | none => .error (.misuse (.missingValue parameter))
    | some value =>
      if p.option.isSome then .error (.misuse (.repeatedOption parameter))
      else if value.isEmpty then .error (.misuse (.missingValue parameter))
      else .ok { done with option := some value }

/-- Read an option. With a value of its own it is looked at right away. -/
def readOption (p : Progress) (value : Option String) : Except Halt Progress := do
  let p ← p.settle
  let p := { p with pending := .option value }
  if value.isSome then p.settle else return p

/-- Read an option that goes with every command. -/
def readVerbose (p : Progress) : Except Halt Progress := do
  let p ← p.settle
  if p.verbose then throw (.misuse (.repeatedOption "--verbose"))
  return { p with verbose := true }

/-- Stop for an option that asks for something else. -/
def stop (p : Progress) (halt : Halt) : Except Halt Progress := do
  let _ ← p.settle
  throw halt

/-- The version, as it is asked for here. -/
def version (p : Progress) : Halt :=
  .version (p.form.map (·.name))

/-- Read an option with a long name. -/
def readLong (p : Progress) (name : String) (value : Option String) : Except Halt Progress :=
  let plain (read : Except Halt Progress) : Except Halt Progress := match value with
    | none => read
    | some v => .error (.misuse (.surplusValue v s!"--{name}"))
  if name == "verbose" then plain p.readVerbose
  else if name == "help" then plain (p.stop .help)
  else if name == "version" then plain (p.stop p.version)
  else if p.optionForm?.any (·.long == name) then p.readOption value
  else .error (.misuse (.unexpectedArgument s!"--{name}"))

/-- Read options with short names, in a row. The rest of the row behind one that takes a value is
that value. -/
def readShort (p : Progress) : List Char → Except Halt Progress
  | [] => .ok p
  | c :: rest =>
    if c = 'v' then do
      let p ← p.readVerbose
      p.readShort rest
    else if c = 'h' then p.stop .help
    else if c = 'V' then p.stop p.version
    else if p.optionForm?.any (·.short == c) then
      p.readOption (match rest with
        | [] => none
        | '=' :: value => some (String.ofList value)
        | value => some (String.ofList value))
    else .error (.misuse (.unexpectedArgument (String.ofList ['-', c])))

/-- Read an operand of a command. -/
def readOperand (p : Progress) (word : String) : Except Halt Progress := do
  if (p.operandForm? p.operandCount).isNone then
    throw (.misuse (.unexpectedArgument word))
  let p ← p.settle
  return { p with pending := .operand word }

/-- Read the name of the command. -/
def readName (p : Progress) (word : String) : Except Halt Progress :=
  match form? word with
  | none => .error (.misuse (.unknownCommand word))
  | some f =>
    if p.literal then .error (.misuse (.unexpectedArgument word)) else .ok { form := some f }

/-- Read an argument that is no option. -/
def readWord (p : Progress) (word : String) : Except Halt Progress :=
  match p.form, p.pending, p.literal with
  | none, _, _ => p.readName word
  | some _, .option none, false => .ok { p with pending := .option (some word) }
  | some _, _, _ => p.readOperand word

/-- Read an argument. -/
def readArgument (p : Progress) (argument : String) : Except Halt Progress :=
  if p.literal then p.readWord argument
  else match argument.toList with
    | ['-', '-'] => .ok { p with literal := true }
    | '-' :: '-' :: body =>
      let name := body.takeWhile (· ≠ '=')
      let value := body.drop name.length
      p.readLong (String.ofList name)
        (if value.isEmpty then none else some (String.ofList value.tail))
    | '-' :: c :: rest => p.readShort (c :: rest)
    | _ => p.readWord argument

/-- What has been asked for when all arguments have been read. -/
def finish (p : Progress) : Except Halt Command := do
  let p ← p.settle
  match p.form with
  | none => throw (.misuse (if p.verbose then .missingCommand else .noArguments))
  | some f => match ofForm? f.name p.operands p.option with
    | some c => return c
    | none => throw (.misuse .missingOperands)

end Progress

/-- Help about commands, which have to be known. -/
def helpAbout : List String → Halt
  | [] => .help
  | [name] =>
    if name == "help" || (form? name).isSome then .help else .misuse (.unknownCommand name)
  | name :: next :: _ =>
    if name == "help" || (form? name).isSome then .misuse (.unknownCommand next)
    else .misuse (.unknownCommand name)

/-- Read the arguments behind those that have been read. -/
def readArguments (p : Progress) : List String → Except Halt Command
  | [] => p.finish
  | argument :: rest =>
    if p.form.isNone && argument == "help" then
      .error (if p.literal then .misuse (.unexpectedArgument argument) else helpAbout rest)
    else do
      let p ← p.readArgument argument
      readArguments p rest

/-- The command that some arguments spell. -/
def ofArguments (arguments : List String) : Except Halt Command :=
  readArguments {} arguments

end Command

end Gamebook
