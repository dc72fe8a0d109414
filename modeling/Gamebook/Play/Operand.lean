import Gamebook.Script.Expr
import Gamebook.Value

/-!
# Operands

Evaluating an expression gives a value, and with it a hint whether the value is meant as a number.
The hint comes from `#` and spreads through operators. Ordered comparisons look at the integers of
numbers and at the counts of other values; a product or a quotient by something that is no number
leaves the integer alone.

Integers stop at the ends of their range. A quotient is rounded toward zero, and a division by zero
keeps the dividend.
-/

namespace Gamebook

open Script

/-- A value, and whether it is meant as a number. -/
structure Operand where
  value : Value := .empty
  numeric : Bool := false
  deriving DecidableEq, Repr, Inhabited

namespace Operand

/-- An integer, meant as a number. -/
def number (n : Int64) : Operand :=
  ⟨.ofInteger n, true⟩

/-- A count, meant as a number. -/
def ofNat (n : Nat) : Operand :=
  number (Decimal.clamp n)

/-- One for yes and zero for no, meant as numbers. -/
def ofBool (b : Bool) : Operand :=
  number (if b then 1 else 0)

/-- Some atoms. -/
def ofAtoms (atoms : List String) : Operand :=
  ⟨.ofAtoms atoms, false⟩

/-- Whether an operand counts as true. -/
def holds (o : Operand) : Bool :=
  0 < o.value.count

/-! ### Operators -/

/-- The atoms that an operator makes of two values. -/
def combineAtoms (op : Operator) (v w : Value) : Value :=
  match op with
  | .union => (v.union w).1
  | .difference => (v.diff w).1
  | .intersect => (v.inter w).1
  | .concat => (v.concat w).1

/-- The integer that an operator makes of two; `numeric` tells whether the right one is meant as a
number. -/
def combineIntegers (op : Operator) (a b : Int64) (numeric : Bool) : Int64 :=
  match op with
  | .union => Decimal.clamp (a.toInt + b.toInt)
  | .difference => Decimal.clamp (a.toInt - b.toInt)
  | .intersect => if numeric && b != 0 then a / b else a
  | .concat => if numeric then Decimal.clamp (a.toInt * b.toInt) else a

/-- Apply an operator. -/
def combine (l : Operand) (op : Operator) (r : Operand) : Operand :=
  let n := combineIntegers op l.value.integer r.value.integer r.numeric
  ⟨((combineAtoms op l.value r.value).setInteger n).1, l.numeric || r.numeric⟩

/-- Whether an operator divides by the number zero. -/
def dividesByZero (op : Operator) (r : Operand) : Bool :=
  op == .intersect && r.numeric && r.value.integer == 0

/-! ### Comparisons -/

/-- Compare two operands. A number without atoms is looked for as the integer. -/
def compare (subject : Operand) (c : Comparison) (object : Operand) : Bool :=
  let numeric := subject.numeric || object.numeric
  let size (o : Operand) := if numeric then o.value.integer else o.value.count
  let bareNumber := object.numeric && object.value.atoms.isEmpty
  let (s, v) := (subject.value, object.value)
  match c with
  | .contains => if bareNumber then s.integer == v.integer else s.containsAll v
  | .notContains => if bareNumber then s.integer != v.integer else !s.containsAny v
  | .equals => s.isEquivalent v
  | .notEquals => !s.isEquivalent v
  | .atMost => size subject ≤ size object
  | .atLeast => size object ≤ size subject
  | .more => size object < size subject
  | .less => size subject < size object

end Operand

/-! ### Changes -/

/-- Change a value by another one, as an instruction does. -/
def Value.change (v : Value) (c : Change) (w : Value) : Value × Bool :=
  let withInteger (r : Value × Bool) (n : Int) : Value × Bool :=
    let (v, changed) := r.1.setInteger (Decimal.clamp n)
    (v, changed || r.2)
  match c with
  | .add => withInteger (v.union w) (v.integer.toInt + w.integer.toInt)
  | .remove => withInteger (v.diff w) (v.integer.toInt - w.integer.toInt)
  | .assign => v.assign w

end Gamebook
