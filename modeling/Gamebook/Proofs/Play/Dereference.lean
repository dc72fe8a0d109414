import Gamebook.Proofs.Play.Assignment
import Gamebook.Proofs.Value.Built
import Gamebook.Proofs.Value.Sets

/-!
# What a dereferenced noun stands for

The expression `@apple` stands for the atoms of the apple, and its integer is left behind. After
`basket=@apple` the basket has these atoms and the integer zero (`deref_copies`). So it is a copy of
what the apple was exactly if that was a proper value with the integer zero. The condition
`basket==@apple` leaves the integer behind, too, and always holds afterwards.
-/

namespace Gamebook

open Script

/-! ### The atoms of a value -/

namespace Value

variable {v w : Value}

theorem integer_ofAtoms (atoms : List String) : (ofAtoms atoms).integer = 0 :=
  integer_addAll empty atoms

theorem Proper.atoms_ofAtoms (hw : w.Proper) : (ofAtoms w.atoms).atoms = w.atoms :=
  hw.atoms_union_of_nil rfl

theorem mem_ofAtoms_iff {atoms : List String} {a : String} :
    a ∈ (ofAtoms atoms).atoms ↔ a ∈ atoms ∧ a ≠ "" :=
  mem_addAll_iff.trans (or_iff_right List.not_mem_nil)

/-- Atoms are left out unless they are a set without the empty one. -/
theorem length_ofAtoms_eq_iff (w : Value) :
    (ofAtoms w.atoms).atoms.length = w.atoms.length ↔ w.Proper := by
  constructor
  · intro hlength
    have hkept := proper_ofAtoms w.atoms
    have hsub : (ofAtoms w.atoms).atoms.Subperm w.atoms :=
      List.subperm_of_subset hkept.nodup fun a ha => (mem_ofAtoms_iff.mp ha).1
    exact hkept.perm (hsub.perm_of_length_le (by omega)).symm
  · intro hw
    rw [hw.atoms_ofAtoms]

/-- A value with the atoms of another one, and with the integer zero, is equivalent to it if nothing
is lost on the way. -/
theorem isEquivalent_iff_of_perm_ofAtoms (hinteger : v.integer = 0)
    (hperm : v.atoms.Perm (ofAtoms w.atoms).atoms) :
    v.isEquivalent w = true ↔ w.integer = 0 ∧ w.Proper := by
  constructor
  · intro h
    rw [isEquivalent, Bool.and_eq_true, Bool.and_eq_true, beq_iff_eq, beq_iff_eq] at h
    obtain ⟨⟨hsame, hlength⟩, -⟩ := h
    exact ⟨hsame ▸ hinteger, (length_ofAtoms_eq_iff w).mp (hperm.length_eq ▸ hlength)⟩
  · rintro ⟨hzero, hw⟩
    rw [hw.atoms_ofAtoms] at hperm
    exact (isEquivalent_iff hw.nodup).mpr ⟨hinteger.trans hzero.symm, hperm⟩

end Value

/-! ### Copies -/

section Copy

variable {σ : Type} (g : Setting σ) (verb : String → String → Run σ Bool) (noun : String)

/-- The expression `@a`. -/
def Script.Expr.deref (a : String) : Expr :=
  .ofPrimary (.deref a)

/-- The value of a noun on a stage. -/
def Setting.valueAt (g : Setting σ) (noun : String) (s : Stage σ) : Value :=
  ((g.valueOf noun).run s).1

theorem Setting.valueAt_of_value? {x : String} {s : Stage σ} {v : Value}
    (h : s.session.value? x = some v) : g.valueAt x s = v := by
  rw [Setting.valueAt, Setting.valueOf, Run.run_bind, Run.run_session]
  dsimp only
  rw [h]
  rfl

/-- The atoms of a noun are all that `@` gives. -/
theorem evalExpr_deref (a : String) (s : Stage σ) :
    ((evalExpr g verb noun (.deref a)).run s).1 = .ofAtoms (g.valueAt a s).atoms := by
  rw [Expr.deref, Expr.ofPrimary, evalExpr, evalTerm, evalItem, evalPrimary]
  rfl

/-- After `b=@a` the noun `b` has the atoms that `a` had, and the integer zero; this is the value
that `a` had, if nothing of it is lost so. In any case `b==@a` holds afterwards. -/
theorem deref_copies (a : String) {b : String} (hb : b ≠ "") (s : Stage σ) :
    let old := g.valueAt a s
    let t := ((runAction g verb noun (.about b .assign (.deref a))).run s).2
    let new := g.valueAt b t
    new.integer = 0 ∧ new.atoms.Perm (Value.ofAtoms old.atoms).atoms ∧
      (new.isEquivalent old = true ↔ old.integer = 0 ∧ old.Proper) ∧
      ((evalCondition g verb noun (.about b .equals (.deref a))).run t).1 = true := by
  intro old t new
  have hproper : (Value.ofAtoms old.atoms).Proper := Value.proper_ofAtoms old.atoms
  have hafter (name : String) : t.session.value? name =
      if b = name then some ((s.session.ownValue b (g.defaultOf b)).assign (.ofAtoms old.atoms)).1
      else s.session.value? name := by
    rw [session_runAction_about g verb noun hb rfl .assign s, Session.value?_modifyValue,
      evalExpr_deref]
    rfl
  have hvalue := (hafter b).trans (if_pos rfl)
  have hnew : new = _ := g.valueAt_of_value? hvalue
  rw [← hnew] at hvalue
  obtain ⟨hinteger, hperm⟩ : new.integer = 0 ∧ new.atoms.Perm (Value.ofAtoms old.atoms).atoms := by
    rw [hnew, ← Value.integer_ofAtoms old.atoms]
    exact Value.perm_assign hproper
  refine ⟨hinteger, hperm, Value.isEquivalent_iff_of_perm_ofAtoms hinteger hperm, ?_⟩
  -- the noun `a` has kept its value, or it is the one that was changed
  have hagain : (Value.ofAtoms old.atoms).atoms.Perm
      (Value.ofAtoms (g.valueAt a t).atoms).atoms := by
    by_cases hab : a = b
    · subst hab
      rw [(hproper.perm hperm).atoms_ofAtoms]
      exact hperm.symm
    · have hagrees : t.session.AgreesOn (· ≠ b) s.session :=
        fun name hne => (hafter name).trans (if_neg hne.symm)
      have hsame : g.valueAt a t = old := (asks_valueOf (N := (· ≠ b)) g hab).answer_eq hagrees
      rw [hsame]
  rw [evalCondition_about g verb noun hb .equals _ hvalue, evalExpr_deref]
  refine (Value.isEquivalent_iff (Value.proper_ofAtoms _).nodup).mpr ⟨?_, ?_⟩
  · rw [Operand.integer_named, hinteger]
    exact (Value.integer_ofAtoms _).symm
  · rw [Operand.atoms_named]
    exact (List.Perm.of_eq ((hproper.perm hperm).atoms_union_of_nil rfl)).trans
      (hperm.trans hagain)

end Copy

/-! ### A copied apple -/

/-- Red apples, three of them, an empty basket, and a green pear. -/
def fruit : Setting Unit :=
  ⟨(Story.load "[apple=red,ripe,#3][basket][pear=green]").story, .silent, 64⟩

/-- The pear has no number, so that the basket becomes what it is. -/
theorem deref_copies_pear :
    let start : Stage Unit := { session := .fresh, host := () }
    let verb (_ _ : String) : Run Unit Bool := return false
    let after := ((runAction fruit verb "basket" (.about "basket" .assign (.deref "pear"))).run
      start).2
    "basket" ≠ "" ∧ (fruit.valueAt "pear" start).atoms = ["green"] ∧
      (fruit.valueAt "basket" after).isEquivalent (fruit.valueAt "pear" start) = true ∧
      ((evalCondition fruit verb "basket" (.about "basket" .equals (.deref "pear"))).run
        after).1 = true := by
  intro start verb after
  have hne : "basket" ≠ "" := by decide
  obtain ⟨-, -, hcopy, hholds⟩ := deref_copies fruit verb "basket" "pear" hne start
  exact ⟨hne, by decide +kernel, hcopy.mpr (by decide +kernel), hholds⟩

/-- The apples have a number, and the basket becomes no copy of them, although it then passes for
one. -/
theorem deref_drops_number :
    let start : Stage Unit := { session := .fresh, host := () }
    let verb (_ _ : String) : Run Unit Bool := return false
    let after := ((runAction fruit verb "basket" (.about "basket" .assign (.deref "apple"))).run
      start).2
    fruit.valueAt "apple" start = { atoms := ["red", "ripe"], integer := 3 } ∧
      fruit.valueAt "basket" after = { atoms := ["red", "ripe"], dirty := true } ∧
      (fruit.valueAt "basket" after).isEquivalent (fruit.valueAt "apple" start) = false ∧
      ((evalCondition fruit verb "basket" (.about "basket" .equals (.deref "apple"))).run
        after).1 = true := by
  decide +kernel

end Gamebook
