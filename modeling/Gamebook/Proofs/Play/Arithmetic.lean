import Gamebook.Play.Eval
import Gamebook.Proofs.Value.Membership
import Gamebook.Story.Source

/-!
# Integers that stop at the ends of their range

The integer of a value is a word, and the operators of the scripts work on words. Whatever two words
meet, a sum, a difference or a product is the exact one, or the end of the range that the exact one
has passed (`Decimal.nearest`). A quotient is the exact one rounded toward zero, with one exception:
the least word divided by minus one stays the least word, where the greatest word is the nearest one
(`Decimal.toInt_div_eq_nearest_iff`, `combine_integers_least`).

An operator reports a division by the number zero, which keeps the dividend, and does nothing else
to a run (`combine_integers`).
-/

namespace Gamebook

open Script

/-! ### Words and exact integers -/

namespace Decimal

/-- An integer, or the end of the range of words that it has passed. -/
def nearest (n : Int) : Int :=
  max minWord (min n maxWord)

theorem toInt_clamp_eq_nearest (n : Int) : (clamp n).toInt = nearest n := by
  have hends : minWord < maxWord := by decide
  rw [toInt_clamp, nearest]
  split
  · omega
  · split <;> omega

theorem nearest_toInt (n : Int64) : nearest n.toInt = n.toInt := by
  rw [← toInt_clamp_eq_nearest, clamp_toInt]

/-- A quotient of words is a word, unless the least one changes its sign: its negation lies outside
the range. -/
theorem toInt_div_eq_nearest_iff (a b : Int64) :
    (a / b).toInt = nearest (a.toInt.tdiv b.toInt) ↔ ¬ (a = Int64.minValue ∧ b = -1) := by
  constructor
  · rintro hnearest ⟨rfl, rfl⟩
    exact absurd hnearest (by decide)
  · intro hpair
    have hexact : (a / b).toInt = a.toInt.tdiv b.toInt := by
      by_cases ha : a = Int64.minValue
      · exact Int64.toInt_div_of_ne_right a b fun hb => hpair ⟨ha, hb⟩
      · exact Int64.toInt_div_of_ne_left a b ha
    rw [← hexact, nearest_toInt]

end Decimal

open Decimal

/-! ### Operators -/

namespace Operand

/-- The integer that an operator gives is the one that it makes of the two integers. -/
theorem integer_combine (l : Operand) (op : Operator) (r : Operand) :
    (l.combine op r).value.integer =
      combineIntegers op l.value.integer r.value.integer r.numeric :=
  Value.integer_setInteger _ _

/-- Only quotients by a number that is zero are reported. -/
theorem dividesByZero_iff {op : Operator} {r : Operand} :
    dividesByZero op r = true ↔ op = .intersect ∧ r.numeric = true ∧ r.value.integer = 0 := by
  rw [dividesByZero, Bool.and_eq_true, Bool.and_eq_true, beq_iff_eq, beq_iff_eq, and_assoc]

end Operand

/-! ### Changes -/

theorem Value.integer_change_add (v w : Value) :
    (v.change .add w).1.integer = clamp (v.integer.toInt + w.integer.toInt) :=
  Value.integer_setInteger _ _

theorem Value.integer_change_remove (v w : Value) :
    (v.change .remove w).1.integer = clamp (v.integer.toInt - w.integer.toInt) :=
  Value.integer_setInteger _ _

/-! ### Runs -/

variable {σ : Type}

/-- An operator gives its answer, and a run is left with at most one report more. -/
theorem run_combine (noun : String) (l : Operand) (op : Operator) (r : Operand) (s : Stage σ) :
    (combine noun l op r).run s = (l.combine op r,
      if Operand.dividesByZero op r then
        { s with diagnostics := s.diagnostics ++
            [⟨.warning, ⟨0, 0⟩, "division by zero", some s!"in [{noun}]"⟩] }
      else s) := by
  rw [combine]
  split
  · rfl
  · rfl

/-- The integers that operators and changes make of two words. Sums, differences and products stop
at the ends of the range and are exact otherwise, and so are quotients, but for the least word
divided by minus one. By the number zero the dividend is kept, and this is reported once; nothing
else is reported, and nothing else happens. -/
theorem combine_integers (noun : String) (l r : Operand) (v w : Value) (s : Stage σ) :
    let run (op : Operator) := (combine noun l op r).run s
    let integer (op : Operator) := (run op).1.value.integer
    let a := l.value.integer
    let b := r.value.integer
    (integer .union).toInt = nearest (a.toInt + b.toInt) ∧
      (integer .difference).toInt = nearest (a.toInt - b.toInt) ∧
      (r.numeric = true → (integer .concat).toInt = nearest (a.toInt * b.toInt) ∧
        (b ≠ 0 → ((integer .intersect).toInt = nearest (a.toInt.tdiv b.toInt) ↔
          ¬ (a = Int64.minValue ∧ b = -1))) ∧
        (b = 0 → integer .intersect = a)) ∧
      (∀ op, (run op).2 = if op = .intersect ∧ r.numeric = true ∧ b = 0 then
        { s with diagnostics := s.diagnostics ++
            [⟨.warning, ⟨0, 0⟩, "division by zero", some s!"in [{noun}]"⟩] } else s) ∧
      (v.change .add w).1.integer.toInt = nearest (v.integer.toInt + w.integer.toInt) ∧
      (v.change .remove w).1.integer.toInt = nearest (v.integer.toInt - w.integer.toInt) := by
  intro run integer a b
  have hinteger (op : Operator) : integer op = Operand.combineIntegers op a b r.numeric := by
    change ((combine noun l op r).run s).1.value.integer = _
    rw [run_combine, Operand.integer_combine]
  simp only [hinteger, Operand.combineIntegers]
  refine ⟨toInt_clamp_eq_nearest _, toInt_clamp_eq_nearest _, fun hnumeric => ⟨?_, fun hb => ?_,
    fun hb => ?_⟩, fun op => ?_, ?_, ?_⟩
  · rw [if_pos hnumeric, toInt_clamp_eq_nearest]
  · rw [if_pos (by simp [hnumeric, hb]), toInt_div_eq_nearest_iff]
  · rw [if_neg (by simp [hb])]
  · change ((combine noun l op r).run s).2 = _
    rw [run_combine]
    simp only [Operand.dividesByZero_iff]
    rfl
  · rw [Value.integer_change_add, toInt_clamp_eq_nearest]
  · rw [Value.integer_change_remove, toInt_clamp_eq_nearest]

/-- The least word and a number, three or zero: the difference stops at the least word, the product
too, and the quotient by three is cut off behind the point. -/
theorem combine_integers_three :
    let start : Stage Unit := { session := .fresh, host := () }
    let least : Operand := .number Int64.minValue
    let three : Operand := .number 3
    let zero : Operand := .number 0
    let integer (op : Operator) (r : Operand) :=
      ((combine "n" least op r).run start).1.value.integer
    three.numeric = true ∧ three.value.integer ≠ 0 ∧ zero.numeric = true ∧
      zero.value.integer = 0 ∧ (integer .difference three).toInt = minWord ∧
      (integer .concat three).toInt = minWord ∧
      (integer .intersect three).toInt = -3074457345618258602 ∧
      integer .intersect zero = Int64.minValue := by
  intro start least three zero integer
  have hthree : three.value.integer ≠ 0 := by decide
  obtain ⟨-, hdifference, hnumber, -⟩ :=
    combine_integers "n" least three .empty .empty start
  obtain ⟨hproduct, hquotient, -⟩ := hnumber rfl
  obtain ⟨-, -, hzero, -⟩ := combine_integers "n" least zero .empty .empty start
  exact ⟨rfl, hthree, rfl, rfl, hdifference.trans (by decide), hproduct.trans (by decide),
    ((hquotient hthree).mpr (by decide)).trans (by decide), (hzero rfl).2.2 rfl⟩

/-- The expression `#n/#-1`. -/
def negatedQuotient : Expr :=
  .binary (.term (.item (.primary (.integerOf "n")))) .intersect (.item (.primary (.integer (-1))))

/-- A noun with the least integer, divided by minus one: the integer is kept, and nothing is
reported. The exact quotient lies behind the other end of the range. -/
theorem combine_integers_least :
    let g : Setting Unit := ⟨(Story.load "[n=#-9223372036854775808]").story, .silent, 64⟩
    let start : Stage Unit := { session := .fresh, host := () }
    let answer := (evalExpr g (fun _ _ => return false) "n" negatedQuotient).run start
    answer.1 = .number Int64.minValue ∧ answer.2.diagnostics = [] ∧
      nearest (minWord.tdiv (-1)) = maxWord ∧
      answer.1.value.integer.toInt ≠ nearest (minWord.tdiv (-1)) := by
  decide +kernel

end Gamebook
