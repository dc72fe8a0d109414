import Gamebook.Play.Operand
import Gamebook.Proofs.Value.Atoms
import Mathlib.Data.List.Perm.Subperm

/-!
# Values as sets

Which atoms are held after an operation, the order left aside. What is added is held unless it is
empty (`mem_addAll_iff`), and what is taken out is not (`mem_keep_iff`). A value is equivalent to
one without repeated atoms exactly if it has its integer, and its atoms in some order
(`isEquivalent_iff`); after a proper one was assigned, it is (`perm_assign`).
-/

namespace Gamebook

/-- A word is within its range. -/
theorem Decimal.clamp_toInt (n : Int64) : clamp n.toInt = n := by
  have hmin := n.le_toInt
  have hmax := n.toInt_lt
  have hle : minWord ≤ n.toInt := hmin
  have hge : n.toInt ≤ maxWord := by
    unfold maxWord
    omega
  rw [clamp, if_neg (Int.not_lt.mpr hle), if_neg (Int.not_lt.mpr hge), Int64.ofInt_toInt]

namespace Value

variable {v w : Value} {a : String}

/-! ### Adding and taking out -/

/-- An atom that was added is held, unless it is empty. -/
theorem mem_add_self (h : a ≠ "") : a ∈ (v.add a).1.atoms := by
  rcases v.add_cases a with ⟨heq, hheld⟩ | ⟨heq, -⟩
  · rw [heq]
    exact hheld.resolve_left h
  · rw [heq]
    exact List.mem_append_right _ List.mem_cons_self

/-- Adding takes nothing out. -/
theorem mem_add_of_mem (h : a ∈ v.atoms) (atom : String) : a ∈ (v.add atom).1.atoms := by
  rcases v.add_cases atom with ⟨heq, -⟩ | ⟨heq, -⟩
  · rwa [heq]
  · rw [heq]
    exact List.mem_append_left _ h

/-- The atoms that were held are held still, and those that were added, but for the empty one. -/
theorem mem_addAll_iff {atoms : List String} :
    a ∈ (v.addAll atoms).1.atoms ↔ a ∈ v.atoms ∨ a ∈ atoms ∧ a ≠ "" := by
  refine ⟨mem_addAll, fun h => ?_⟩
  induction atoms generalizing v with
  | nil => exact h.resolve_right fun hnil => List.not_mem_nil hnil.1
  | cons atom atoms ih =>
    refine ih (v := (v.add atom).1) ?_
    rcases h with h | ⟨h, hne⟩
    · exact .inl (mem_add_of_mem h atom)
    · rcases List.mem_cons.mp h with rfl | h
      · exact .inl (mem_add_self hne)
      · exact .inr ⟨h, hne⟩

/-- The atoms that pass the test are left, in their order. -/
theorem atoms_keep (v : Value) (p : String → Bool) : (v.keep p).1.atoms = v.atoms.filter p := by
  rcases v.keep_cases p with ⟨heq, hall⟩ | ⟨heq, -⟩
  · rw [heq]
    exact (List.filter_eq_self.mpr hall).symm
  · rw [heq]

/-- The atoms that pass the test are held still. -/
theorem mem_keep_iff {p : String → Bool} :
    a ∈ (v.keep p).1.atoms ↔ a ∈ v.atoms ∧ p a = true := by
  rw [atoms_keep, List.mem_filter]

/-- The atoms that are missing follow in their order. -/
theorem atoms_addAll {atoms : List String} (hne : ∀ atom ∈ atoms, atom ≠ "")
    (hnodup : atoms.Nodup) :
    (v.addAll atoms).1.atoms = v.atoms ++ atoms.filter (· ∉ v.atoms) := by
  induction atoms generalizing v with
  | nil => exact (List.append_nil _).symm
  | cons atom atoms ih =>
    obtain ⟨hnot, hnodup⟩ := List.nodup_cons.mp hnodup
    have hatom : atom ≠ "" := hne atom List.mem_cons_self
    have hrest := ih (v := (v.add atom).1) (fun a ha => hne a (List.mem_cons_of_mem atom ha)) hnodup
    rw [addAll_cons, hrest]
    rcases v.add_cases atom with ⟨heq, hheld⟩ | ⟨heq, -, hnew⟩
    · have hheld : atom ∈ v.atoms := hheld.resolve_left hatom
      rw [heq, List.filter_cons_of_neg (by simpa using hheld)]
    · -- the atom is not among the ones behind it, so that they are passed over as before
      have hfilter : atoms.filter (· ∉ v.atoms ++ [atom]) = atoms.filter (· ∉ v.atoms) := by
        refine List.filter_congr fun a ha => ?_
        have hne : a ≠ atom := fun heq => hnot (heq ▸ ha)
        simp [hne]
      rw [heq, hfilter, List.filter_cons_of_pos (by simpa using hnew)]
      exact (List.append_cons _ _ _).symm

/-- The union with a set has what is missing of it behind the old atoms. -/
theorem Proper.atoms_union (hw : w.Proper) (v : Value) :
    (v.union w).1.atoms = v.atoms ++ w.atoms.filter (· ∉ v.atoms) :=
  atoms_addAll hw.ne_empty hw.nodup

/-- The atoms of a proper value, added to none, are what they were. -/
theorem Proper.atoms_union_of_nil (hw : w.Proper) (h : v.atoms = []) :
    (v.union w).1.atoms = w.atoms := by
  rw [hw.atoms_union, h]
  exact List.filter_eq_self.mpr (by simp)

/-! ### Equivalence -/

theorem containsAll_iff : v.containsAll w = true ↔ ∀ a ∈ w.atoms, a ∈ v.atoms := by
  simp [containsAll, contains]

theorem containsAny_iff : v.containsAny w = true ↔ ∃ a ∈ w.atoms, a ∈ v.atoms := by
  simp [containsAny, contains]

theorem isEquivalent_refl (v : Value) : v.isEquivalent v = true := by
  simp [isEquivalent, containsAll_iff]

theorem isEquivalent_trans {u : Value} (huv : u.isEquivalent v = true)
    (hvw : v.isEquivalent w = true) : u.isEquivalent w = true := by
  simp only [isEquivalent, Bool.and_eq_true, beq_iff_eq, containsAll_iff] at huv hvw ⊢
  obtain ⟨⟨hinteger, hlength⟩, hall⟩ := huv
  obtain ⟨⟨hinteger', hlength'⟩, hall'⟩ := hvw
  exact ⟨⟨hinteger.trans hinteger', hlength.trans hlength'⟩, fun a ha => hall a (hall' a ha)⟩

theorem not_isEquivalent_of_length_ne (h : v.atoms.length ≠ w.atoms.length) :
    v.isEquivalent w = false := by
  simp [isEquivalent, h]

/-- The integer of a value without repeated atoms, and its atoms in some order. -/
theorem isEquivalent_iff (hw : w.atoms.Nodup) :
    v.isEquivalent w = true ↔ v.integer = w.integer ∧ v.atoms.Perm w.atoms := by
  simp only [isEquivalent, Bool.and_eq_true, beq_iff_eq, containsAll_iff, and_assoc]
  refine and_congr_right fun _ => ⟨fun ⟨hlength, hall⟩ => ?_, fun hperm => ?_⟩
  · have hsub := List.subperm_of_subset hw hall
    exact (hsub.perm_of_length_le (Nat.le_of_eq hlength)).symm
  · exact ⟨hperm.length_eq, fun a ha => hperm.mem_iff.mpr ha⟩

/-- Between proper values it makes no difference which one is asked. -/
theorem isEquivalent_comm (hv : v.Proper) (hw : w.Proper) :
    v.isEquivalent w = w.isEquivalent v := by
  rw [Bool.eq_iff_iff, isEquivalent_iff hw.nodup, isEquivalent_iff hv.nodup, List.perm_comm,
    eq_comm]

/-- Atoms in another order are still a set without empty ones. -/
theorem Proper.perm (hw : w.Proper) (h : v.atoms.Perm w.atoms) : v.Proper :=
  ⟨fun a ha => hw.ne_empty a (h.mem_iff.mp ha), h.nodup_iff.mpr hw.nodup⟩

/-! ### Changes -/

/-- What is assigned is what is there afterwards, but for the order of the atoms. -/
theorem perm_assign (hw : w.Proper) :
    (v.assign w).1.integer = w.integer ∧ (v.assign w).1.atoms.Perm w.atoms := by
  rcases v.assign_cases w with ⟨heq, hsame⟩ | ⟨heq, -⟩
  · rw [heq]
    exact (isEquivalent_iff hw.nodup).mp hsame
  · rw [heq]
    exact ⟨rfl, .refl _⟩

/-- What an action adds is held. -/
theorem mem_change_add (h : a ∈ w.atoms) (hne : a ≠ "") : a ∈ (v.change .add w).1.atoms := by
  rw [show (v.change .add w).1.atoms = _ from atoms_setInteger _ _]
  exact mem_addAll_iff.mpr (.inr ⟨h, hne⟩)

/-- What an action takes out is not held. -/
theorem not_mem_change_remove (h : a ∈ w.atoms) : a ∉ (v.change .remove w).1.atoms := by
  rw [show (v.change .remove w).1.atoms = _ from atoms_setInteger _ _]
  intro hmem
  have hkept := (mem_keep_iff.mp hmem).2
  rw [contains, List.contains_eq_mem, decide_eq_true h] at hkept
  cases hkept

end Value

end Gamebook
