import Gamebook.Proofs.Play.Answers
import Gamebook.Proofs.Play.Looking
import Gamebook.Proofs.Value.Membership
import Gamebook.Story.Source

/-!
# Instructions make their conditions true

An instruction looks like the condition that it brings about: after `apple=red` the apple is red,
after `apple+=red` it is red among other things, and after `apple-=red` it is not
(`holds_after_change`). The value is computed twice, once for the change and once for the question.
It comes out the same, as long as nothing is called in it and it spares the noun that is changed:
such an expression only looks, and asks for other nouns (`asks_of_spares`).
-/

namespace Gamebook

open Script

/-! ### Sparing a noun -/

/-- A leaf that does not ask for a noun. It may still spell its name, as a text. -/
def Script.Primary.Spares (x : String) : Primary → Prop
  | .integerOf name => name ≠ x
  | .deref name => name ≠ x
  | _ => True

variable {σ : Type}

/-- An expression that spares a noun asks for others only. -/
theorem asks_of_spares (g : Setting σ) (verb : String → String → Run σ Bool) (noun : String)
    {x : String} {e : Expr} (hfree : e.callFree = true) (h : e.Leaves (Primary.Spares x)) :
    (evalExpr g verb noun e).Asks (· ≠ x) := by
  have hsame : Primary.Spares x = Primary.AsksOnly (· ≠ x) := by
    funext p
    cases p <;> rfl
  rw [hsame] at h
  exact asks_evalExpr g verb noun e hfree h

/-! ### Changing a noun and asking about it -/

theorem Session.value?_modifyValue (s : Session) (noun : String) (default : Value)
    (change : Value → Value × Bool) (name : String) :
    (s.modifyValue noun default change).1.value? name =
      if noun = name then some (change (s.ownValue noun default)).1 else s.value? name :=
  s.values.get?_insert noun name _

/-- The instruction that changes a noun by the value of an expression, such as `x+=E`. -/
def Script.Action.about (x : String) (c : Change) (e : Expr) : Action :=
  .change (some (.ofPrimary (.atom x))) c (some e)

/-- The condition that compares a noun with the value of an expression, such as `x=E`. -/
def Script.Condition.about (x : String) (c : Comparison) (e : Expr) : Condition :=
  .compare (some (.ofPrimary (.atom x))) c (some e)

/-- The value of a noun as the left side of a condition has it: put together from nothing. -/
def Operand.named (w : Value) : Operand :=
  ({} : Operand).combine .union ⟨w, false⟩

namespace Operand

variable {w : Value} {s o : Operand}

theorem atoms_named (w : Value) : (named w).value.atoms = (Value.empty.union w).1.atoms :=
  Value.atoms_setInteger _ _

theorem integer_named (w : Value) : (named w).value.integer = w.integer := by
  have hsum : (named w).value.integer = Decimal.clamp ((0 : Int64).toInt + w.integer.toInt) :=
    Value.integer_setInteger _ _
  rw [hsum, show (0 : Int64).toInt = 0 from rfl, Int.zero_add, Decimal.clamp_toInt]

/-- The atoms of a value are those of its noun on the left side, but for empty ones. -/
theorem mem_named {a : String} : a ∈ (named w).value.atoms ↔ a ∈ w.atoms ∧ a ≠ "" := by
  rw [atoms_named]
  exact Value.mem_addAll_iff.trans (or_iff_right List.not_mem_nil)

theorem compare_contains (hatoms : ∀ a ∈ o.value.atoms, a ∈ s.value.atoms)
    (hinteger : o.value.atoms = [] → s.value.integer = o.value.integer) :
    s.compare .contains o = true := by
  simp only [compare]
  split
  next hbare =>
    rw [Bool.and_eq_true, List.isEmpty_iff] at hbare
    rw [hinteger hbare.2, beq_self_eq_true]
  next => exact Value.containsAll_iff.mpr hatoms

theorem compare_notContains (hne : o.value.atoms ≠ [])
    (hatoms : ∀ a ∈ o.value.atoms, a ∉ s.value.atoms) : s.compare .notContains o = true := by
  simp only [compare]
  rw [if_neg (by simp [hne]), Bool.not_eq_true', Bool.eq_false_iff, ne_eq,
    Value.containsAny_iff]
  exact fun ⟨a, ha, hheld⟩ => hatoms a ha hheld

end Operand

section About

variable (g : Setting σ) (verb : String → String → Run σ Bool) (noun : String) {x : String}

/-- What a noun's name stands for as an expression. -/
theorem evalExpr_atom (hx : x ≠ "") :
    evalExpr g verb noun (.ofPrimary (.atom x)) = Pure.pure ⟨{ atoms := [x] }, false⟩ := by
  have hatoms : Operand.ofAtoms [x] = ⟨{ atoms := [x] }, false⟩ := by
    simp [Operand.ofAtoms, Value.ofAtoms, Value.addAll, Value.add, Value.empty, Value.contains,
      Value.clearDirty, hx]
  rw [Expr.ofPrimary, evalExpr, evalTerm, evalItem, evalPrimary, hatoms]

/-- The one noun is changed, by what the expression comes to before the change. -/
theorem session_runAction_about (hx : x ≠ "") {e : Expr} (hfree : e.callFree = true) (c : Change)
    (s : Stage σ) :
    ((runAction g verb noun (.about x c e)).run s).2.session =
      (s.session.modifyValue x (g.defaultOf x)
        (·.change c ((evalExpr g verb noun e).run s).1.value)).1 := by
  have hrun : (runAction g verb noun (.about x c e)).run s =
      (changeNoun g c ((evalExpr g verb noun e).run s).1.value x).run
        ((evalExpr g verb noun e).run s).2 := by
    rw [Action.about, runAction, targetsOf, evalExpr_atom g verb noun hx]
    rfl
  rw [hrun, ← (onlyLooks_evalExpr g verb noun e hfree).session_eq s]
  rfl

/-- A condition about a noun that has a value of its own. -/
theorem evalCondition_about (hx : x ≠ "") (c : Comparison) (e : Expr) {w : Value} {s : Stage σ}
    (hvalue : s.session.value? x = some w) :
    ((evalCondition g verb noun (.about x c e)).run s).1 =
      (Operand.named w).compare c ((evalExpr g verb noun e).run s).1 := by
  have hlook : (g.valueOf x).run s = (w, s) := by
    rw [Setting.valueOf, Run.run_bind, Run.run_session]
    dsimp only
    rw [hvalue]
    rfl
  have hsubject : (subject g verb noun (some (.ofPrimary (.atom x)))).run s =
      (Operand.named w, s) := by
    rw [subject, evalExpr_atom g verb noun hx]
    change (uniteValues g {} [x]).run s = _
    rw [uniteValues, Run.run_bind, hlook]
    rfl
  rw [Condition.about, evalCondition, Run.run_bind, hsubject]
  rfl

/-- After an instruction changed a noun, the noun holds the changed value, and the expression comes
to the same as before. -/
theorem evalExpr_after_change (hx : x ≠ "") {e : Expr} (hfree : e.callFree = true)
    (hspares : e.Leaves (Primary.Spares x)) (c : Change) (s : Stage σ) :
    let o := ((evalExpr g verb noun e).run s).1
    let t := ((runAction g verb noun (.about x c e)).run s).2
    t.session.value? x = some ((s.session.ownValue x (g.defaultOf x)).change c o.value).1 ∧
      ((evalExpr g verb noun e).run t).1 = o := by
  intro o t
  have hsession := session_runAction_about g verb noun hx hfree c s
  have hagrees : t.session.AgreesOn (· ≠ x) s.session := fun name hne => by
    rw [hsession, Session.value?_modifyValue, if_neg hne.symm]
  refine ⟨?_, (asks_of_spares g verb noun hfree hspares).answer_eq hagrees⟩
  rw [hsession, Session.value?_modifyValue, if_pos rfl]

/-- Instructions make the conditions true that are spelled like them. After `x=E` both `x==E` and
`x=E` hold; if the value has an atom, `x=E` holds after `x+=E`, and `x-=E` after `x-=E`. -/
theorem holds_after_change (hx : x ≠ "") {e : Expr} (hfree : e.callFree = true)
    (hspares : e.Leaves (Primary.Spares x)) (s : Stage σ) :
    let after (c : Change) := ((runAction g verb noun (.about x c e)).run s).2
    let holds (c : Comparison) (t : Stage σ) :=
      ((evalCondition g verb noun (.about x c e)).run t).1 = true
    holds .equals (after .assign) ∧ holds .contains (after .assign) ∧
      (((evalExpr g verb noun e).run s).1.value.atoms ≠ [] →
        holds .contains (after .add) ∧ holds .notContains (after .remove)) := by
  intro after holds
  have hproper := proper_evalExpr g verb noun e s
  generalize ho : ((evalExpr g verb noun e).run s).1 = o at hproper
  have hholds (c : Change) (c' : Comparison) : holds c' (after c) ↔
      (Operand.named ((s.session.ownValue x (g.defaultOf x)).change c o.value).1).compare c' o =
        true := by
    obtain ⟨hvalue, hexpr⟩ := evalExpr_after_change g verb noun hx hfree hspares c s
    rw [ho] at hvalue hexpr
    have hanswer := evalCondition_about g verb noun hx c' e hvalue
    rw [hexpr] at hanswer
    exact Eq.congr_left hanswer
  simp only [hholds]
  have hne := hproper.ne_empty
  obtain ⟨hinteger, hperm⟩ :=
    Value.perm_assign (v := s.session.ownValue x (g.defaultOf x)) hproper
  refine ⟨(Value.isEquivalent_iff hproper.nodup).mpr ⟨?_, ?_⟩, Operand.compare_contains ?_ ?_,
    fun hatoms => ⟨Operand.compare_contains ?_ fun hnil => absurd hnil hatoms,
      Operand.compare_notContains hatoms ?_⟩⟩
  · exact (Operand.integer_named _).trans hinteger
  · rw [Operand.atoms_named]
    exact (List.Perm.of_eq ((hproper.perm hperm).atoms_union_of_nil rfl)).trans hperm
  · exact fun a ha => Operand.mem_named.mpr ⟨hperm.mem_iff.mpr ha, hne a ha⟩
  · exact fun _ => (Operand.integer_named _).trans hinteger
  · exact fun a ha => Operand.mem_named.mpr ⟨Value.mem_change_add ha (hne a ha), hne a ha⟩
  · exact fun a ha hheld => Value.not_mem_change_remove ha (Operand.mem_named.mp hheld).1

end About

/-! ### A basket of apples -/

/-- Apples in two colours, three of them, and a basket with a plum. -/
def orchard : Setting Unit :=
  ⟨(Story.load "[apple=red,green,#3][basket=plum]").story, .silent, 64⟩

/-- The expression `@apple,basket+#apple`; the basket is in it as a text. -/
def harvest : Expr :=
  .binary (.term (.join (.primary (.deref "apple")) (.item (.primary (.atom "basket"))))) .union
    (.item (.primary (.integerOf "apple")))

/-- The apples are put into the basket, added to the plum, or taken out again. -/
theorem holds_after_change_basket :
    let start : Stage Unit := { session := .fresh, host := () }
    let verb (_ _ : String) : Run Unit Bool := return false
    let after (c : Change) :=
      ((runAction orchard verb "basket" (.about "basket" c harvest)).run start).2
    let holds (c : Comparison) (t : Stage Unit) :=
      ((evalCondition orchard verb "basket" (.about "basket" c harvest)).run t).1 = true
    "basket" ≠ "" ∧ harvest.callFree = true ∧ harvest.Leaves (Primary.Spares "basket") ∧
      ((evalExpr orchard verb "basket" harvest).run start).1 =
        ⟨{ atoms := ["red", "green", "basket"], integer := 3, dirty := true }, true⟩ ∧
      holds .equals (after .assign) ∧ holds .contains (after .assign) ∧
      holds .contains (after .add) ∧ holds .notContains (after .remove) := by
  intro start verb after holds
  have happle : "apple" ≠ "basket" := by decide
  have hspares : harvest.Leaves (Primary.Spares "basket") := ⟨⟨happle, trivial⟩, happle⟩
  have hvalue : ((evalExpr orchard verb "basket" harvest).run start).1 =
      ⟨{ atoms := ["red", "green", "basket"], integer := 3, dirty := true }, true⟩ := by
    decide +kernel
  have hatoms : ((evalExpr orchard verb "basket" harvest).run start).1.value.atoms ≠ [] := by
    rw [hvalue]
    exact List.cons_ne_nil _ _
  obtain ⟨hequals, hcontains, hmore⟩ :=
    holds_after_change orchard verb "basket" (x := "basket") (by decide) (by decide) hspares start
  exact ⟨by decide, by decide, hspares, hvalue, hequals, hcontains, hmore hatoms⟩

end Gamebook
