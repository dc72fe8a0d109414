import Gamebook.Play.Function

/-!
# Evaluation

Scripts are evaluated on the page of a noun. An expression is evaluated from left to right. Chains
stop early: behind `&` nothing is evaluated unless what stands in front holds, and behind `|`
nothing if it does.

Running the verb that a script calls is not part of evaluation: the functions here are given `verb`,
which runs a verb of a noun and tells whether it ran.
-/

namespace Gamebook

open Script

variable {σ : Type}

/-- What a chain comes to. -/
structure Verdict where
  holds : Bool
  /-- How many scopes to leave. -/
  breaks : Nat
  deriving DecidableEq, Repr

/-- Whether a connector goes on to the segment behind it. -/
def Script.Connector.goesOn : Connector → Bool → Bool
  | .and, holds => holds
  | .or, holds => !holds

/-! ### Expressions -/

/-- Apply an operator, and report a division by zero. -/
def combine (noun : String) (l : Operand) (op : Operator) (r : Operand) : Run σ Operand := do
  if Operand.dividesByZero op r then Run.problem noun .divisionByZero
  return l.combine op r

/-- Call functions one after the other, each on what the one before it answered. A name that is
none ends the call with the empty value. -/
def callAll (b : Book σ) (noun : String) (args : Operand) : List String → Run σ Operand
  | [] => return args
  | name :: rest => match Function.ofName? name with
    | some f => do
      let args ← f.call b noun args
      callAll b noun args rest
    | none => do
      Run.problem noun (.unknownFunction name (Text.suggest? Function.names name))
      return {}

/-- Call the functions that the atoms of a value name. -/
def callNamed (b : Book σ) (noun : String) (callee : Value) (args : Operand) : Run σ Operand :=
  if callee.atoms.isEmpty then do
    Run.problem noun .namelessCall
    return {}
  else callAll b noun args callee.atoms

section Expr

variable (g : Setting σ) (verb : String → String → Run σ Bool) (noun : String)

mutual

/-- The value of a primary. -/
def evalPrimary : Primary → Run σ Operand
  | .atom name => return .ofAtoms [name]
  | .integer n => return .number n
  | .integerOf name => return .number (← g.valueOf name).integer
  | .deref name => return .ofAtoms (← g.valueOf name).atoms
  | .verbCall target name => do
    let ran ← verb (target.getD noun) name
    return ⟨.ofInteger (if ran then 1 else 0), false⟩
  | .group e => evalExpr e

/-- The value of an item. -/
def evalItem : Item → Run σ Operand
  | .primary p => evalPrimary p
  | .invoke callee => do
    let callee ← evalPrimary callee
    callNamed g.book noun callee.value {}
  | .apply callee arguments => do
    let callee ← evalPrimary callee
    let args ← evalExpr arguments
    callNamed g.book noun callee.value args

/-- Unite a value with those of the items of a term. -/
def evalTermOnto (acc : Operand) : Term → Run σ Operand
  | .item i => do combine noun acc .union (← evalItem i)
  | .join i rest => do
    let acc ← combine noun acc .union (← evalItem i)
    evalTermOnto acc rest

/-- The value of a term. -/
def evalTerm : Term → Run σ Operand
  | .item i => evalItem i
  | .join i rest => do
    let first ← evalItem i
    evalTermOnto first rest

/-- The value of an expression. -/
def evalExpr : Expr → Run σ Operand
  | .term t => evalTerm t
  | .binary left op right => do
    let l ← evalExpr left
    let r ← evalTerm right
    combine noun l op r

end

/-- The value of an expression that may be missing. -/
def evalOptional : Option Expr → Run σ Operand
  | some e => evalExpr g verb noun e
  | none => return {}

/-! ### Conditions -/

/-- The united values of some nouns. -/
def uniteValues (acc : Operand) : List String → Run σ Operand
  | [] => return acc
  | name :: rest => do
    let v ← g.valueOf name
    uniteValues (acc.combine .union ⟨v, false⟩) rest

/-- What the left side of a comparison is about: the nouns that its atoms name, unless it is a
number or has no atoms. -/
def subject : Option Expr → Run σ Operand
  | none => return ⟨← g.valueOf noun, false⟩
  | some e => do
    let o ← evalExpr g verb noun e
    if o.numeric || o.value.atoms.isEmpty then return o
    else uniteValues g {} o.value.atoms

/-- Whether a condition holds. -/
def evalCondition : Condition → Run σ Bool
  | .always => return true
  | .bare e => return (← evalExpr g verb noun e).holds
  | .compare s c v => do
    let s ← subject g verb noun s
    let v ← evalOptional g verb noun v
    return s.compare c v

/-! ### Instructions -/

/-- Change the value of a noun. -/
def changeNoun (c : Change) (v : Value) (target : String) : Run σ Unit :=
  Run.modifySession fun s => (s.modifyValue target (g.defaultOf target) (·.change c v)).1

/-- The nouns that an instruction changes: those that its target names, or the noun at hand. -/
def targetsOf : Option Expr → Run σ (List String)
  | some e => return (← evalExpr g verb noun e).value.atoms
  | none => return [noun]

/-- Carry out an action. What it changes, and by what, is evaluated before anything is changed. -/
def runAction : Action → Run σ Unit
  | .bare e => do
    let _ ← evalExpr g verb noun e
  | .change target c v => do
    let targets ← targetsOf g verb noun target
    let v ← evalOptional g verb noun v
    if targets.isEmpty then Run.problem noun .noTarget
    targets.forM (changeNoun g c v.value)

/-! ### Chains -/

/-- Evaluate a segment. An instruction always holds. -/
def evalSegment : Segment → Run σ Verdict
  | .condition c => return ⟨← evalCondition g verb noun c, 0⟩
  | .instruction i => do
    if let some a := i.action then runAction g verb noun a
    return ⟨true, i.breaks⟩
  | .invalid => return ⟨false, 0⟩

/-- Evaluate the segments behind some that came to a verdict. The breaks are the most that any
segment asked for. -/
def evalSegments (v : Verdict) : List (Connector × Segment) → Run σ Verdict
  | [] => return v
  | (connector, s) :: rest =>
    if connector.goesOn v.holds then do
      let next ← evalSegment g verb noun s
      evalSegments ⟨next.holds, max v.breaks next.breaks⟩ rest
    else return v

/-- Evaluate a chain. -/
def evalChain (c : Chain) : Run σ Verdict := do
  let first ← evalSegment g verb noun c.first
  evalSegments g verb noun first c.rest

end Expr

/-! ### Stored scripts -/

/-- Read a stored script, and report the errors in it. -/
def readScript (noun script : String) : Run σ Chain := do
  let (chain, errors) := Chain.ofText script
  errors.forM fun e => Run.problem noun (.syntaxError e.value script)
  return chain

/-- Evaluate a stored script. A blank one holds. -/
def evalScript (g : Setting σ) (verb : String → String → Run σ Bool) (noun script : String) :
    Run σ Verdict :=
  if Text.isBlank script.toList then return ⟨true, 0⟩
  else do
    let chain ← readScript noun script
    evalChain g verb noun chain

end Gamebook
