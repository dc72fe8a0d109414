import Gamebook.Decimal

/-!
# Values of nouns

A noun of a story holds a *value*: some text atoms, kept in the order in which they arrived, and
one integer. Built through the operations of this module the atoms are a set, none of them empty;
only a value that was stored elsewhere may hold others.

Every operation that can change a value answers with the new value and with whether it changed. A
change marks the value, so that a session records only what moved since it last looked.
-/

namespace Gamebook

/-- Text atoms and an integer, with a mark for unrecorded changes. -/
structure Value where
  /-- The atoms, oldest first. -/
  atoms : List String := []
  /-- The numeric part. -/
  integer : Int64 := 0
  /-- Whether the value changed since the mark was last cleared. -/
  dirty : Bool := false
  deriving DecidableEq, Repr, Inhabited

namespace Value

/-! ### Observations -/

/-- The value without atoms and with the integer zero. -/
def empty : Value := {}

/-- Whether an atom is held. -/
def contains (v : Value) (atom : String) : Bool :=
  v.atoms.contains atom

/-- Whether every atom of `w` is held. -/
def containsAll (v w : Value) : Bool :=
  w.atoms.all v.contains

/-- Whether some atom of `w` is held. -/
def containsAny (v w : Value) : Bool :=
  w.atoms.any v.contains

/-- Neither atoms nor an integer other than zero. -/
def isEmpty (v : Value) : Bool :=
  v.atoms.isEmpty && v.integer == 0

/-- The integer plus the number of atoms; a value counts as true when this is positive. -/
def count (v : Value) : Int64 :=
  Decimal.clamp (v.integer.toInt + v.atoms.length)

/-- The same integer and the same atoms, in whatever order. -/
def isEquivalent (v w : Value) : Bool :=
  v.integer == w.integer && v.atoms.length == w.atoms.length && v.containsAll w

/-! ### Marks -/

def markDirty (v : Value) : Value := { v with dirty := true }

def clearDirty (v : Value) : Value := { v with dirty := false }

/-! ### Operations -/

/-- Set the integer. -/
def setInteger (v : Value) (n : Int64) : Value × Bool :=
  if v.integer == n then (v, false) else ({ v with integer := n, dirty := true }, true)

/-- Put an atom at the end, unless it is empty or held already. -/
def add (v : Value) (atom : String) : Value × Bool :=
  if atom.isEmpty || v.contains atom then (v, false)
  else ({ v with atoms := v.atoms ++ [atom], dirty := true }, true)

/-- Add some atoms, one after the other. -/
def addAll (v : Value) : List String → Value × Bool
  | [] => (v, false)
  | atom :: rest =>
    let (v, here) := v.add atom
    let (v, later) := v.addAll rest
    (v, here || later)

/-- Set union: the atoms of `w` that are missing follow in their order. -/
def union (v w : Value) : Value × Bool :=
  v.addAll w.atoms

/-- Keep the atoms that pass a test. -/
def keep (v : Value) (p : String → Bool) : Value × Bool :=
  if v.atoms.all p then (v, false)
  else ({ v with atoms := v.atoms.filter p, dirty := true }, true)

/-- Take an atom out. -/
def erase (v : Value) (atom : String) : Value × Bool :=
  v.keep (· != atom)

/-- Set difference. -/
def diff (v w : Value) : Value × Bool :=
  v.keep fun atom => !w.contains atom

/-- Set intersection. -/
def inter (v w : Value) : Value × Bool :=
  v.keep w.contains

/-- Every atom of `xs` followed by every atom of `ys`, without repeats. -/
def products (xs ys : List String) : List String :=
  (xs.flatMap fun x => ys.map fun y => x ++ y).foldl
    (fun seen s => if seen.contains s then seen else seen ++ [s]) []

/-- Append every atom of `w` to every atom; a side without atoms changes nothing in the other. -/
def concat (v w : Value) : Value × Bool :=
  if w.atoms.isEmpty then (v, false)
  else if v.atoms.isEmpty then v.union w
  else
    let joined := products v.atoms w.atoms
    if joined == v.atoms then (v, false) else ({ v with atoms := joined, dirty := true }, true)

/-- Become `w`, unless the two are equivalent. -/
def assign (v w : Value) : Value × Bool :=
  if v.isEquivalent w then (v, false)
  else ({ atoms := w.atoms, integer := w.integer, dirty := true }, true)

/-! ### Building values -/

/-- The value of some atoms, without empty ones and repeats. -/
def ofAtoms (atoms : List String) : Value :=
  (empty.addAll atoms).1.clearDirty

/-- The value of one atom. -/
def ofAtom (atom : String) : Value :=
  ofAtoms [atom]

/-- The value of an integer. -/
def ofInteger (n : Int64) : Value :=
  { integer := n }

/-! ### Showing values -/

/-- The form shown to a player: the atoms, then the integer unless it is zero and there are
atoms. -/
def display (v : Value) : String :=
  let number := if v.integer != 0 || v.atoms.isEmpty then
    [String.ofList (Decimal.ofWord v.integer)] else []
  ", ".intercalate (v.atoms ++ number)

end Value

end Gamebook
