import Gamebook.Value
import Mathlib.Data.List.Nodup

/-!
# Proper values

A value that is built through its operations holds a set of atoms, none of them empty: it is
`Value.Proper`. Each operation does nothing, or puts new atoms or a new integer in and marks the
value (`Value.add_cases`, `Value.concat_cases` and the others like them; all else about an operation
is proved from these). So every operation keeps a value proper (`Proper.apply`), and a value without
a mark is as it was (`Mutation.apply_of_clean`).
-/

namespace Gamebook

namespace Value

/-- The atoms are a set, none of them empty. -/
structure Proper (v : Value) : Prop where
  ne_empty : ∀ atom ∈ v.atoms, atom ≠ ""
  nodup : v.atoms.Nodup

instance (v : Value) : Decidable v.Proper :=
  decidable_of_iff ((∀ atom ∈ v.atoms, atom ≠ "") ∧ v.atoms.Nodup)
    ⟨fun h => ⟨h.1, h.2⟩, fun h => ⟨h.1, h.2⟩⟩

end Value

/-- A value whose atoms are a set, none of them empty. -/
abbrev ProperValue := { v : Value // v.Proper }

namespace Value

/-- What can be done to a value. Only taking over another value as a whole asks for a proper one. -/
inductive Mutation where
  | setInteger (n : Int64)
  | add (atom : String)
  | union (w : Value)
  | erase (atom : String)
  | diff (w : Value)
  | inter (w : Value)
  | concat (w : Value)
  | assign (w : ProperValue)
  | markDirty

/-- The value after something was done to it, and whether it changed. -/
def Mutation.apply (v : Value) : Mutation → Value × Bool
  | setInteger n => v.setInteger n
  | add atom => v.add atom
  | union w => v.union w
  | erase atom => v.erase atom
  | diff w => v.diff w
  | inter w => v.inter w
  | concat w => v.concat w
  | assign w => v.assign w
  | markDirty => (v.markDirty, false)

/-- The value after some things were done to it one after the other, and whether it changed. -/
def mutate (v : Value) : List Mutation → Value × Bool
  | [] => (v, false)
  | m :: ms =>
    let (v, here) := m.apply v
    let (v, later) := v.mutate ms
    (v, here || later)

variable {v w : Value}

/-! ### What the operations do -/

/-- Setting an integer does nothing, or puts in another one. -/
theorem setInteger_cases (v : Value) (n : Int64) :
    (v.setInteger n = (v, false) ∧ v.integer = n) ∨
      (v.setInteger n = ({ v with integer := n, dirty := true }, true) ∧ v.integer ≠ n) := by
  rw [Value.setInteger]
  split
  next hsame => exact .inl ⟨rfl, beq_iff_eq.mp hsame⟩
  next hnew => exact .inr ⟨rfl, fun heq => hnew (beq_iff_eq.mpr heq)⟩

theorem atoms_setInteger (v : Value) (n : Int64) : (v.setInteger n).1.atoms = v.atoms := by
  rcases v.setInteger_cases n with ⟨heq, -⟩ | ⟨heq, -⟩ <;> rw [heq]

theorem integer_setInteger (v : Value) (n : Int64) : (v.setInteger n).1.integer = n := by
  rcases v.setInteger_cases n with ⟨heq, hsame⟩ | ⟨heq, -⟩
  · rw [heq, hsame]
  · rw [heq]

/-- Adding an atom does nothing if it is empty or there already, and else puts it behind the
others. -/
theorem add_cases (v : Value) (atom : String) :
    (v.add atom = (v, false) ∧ (atom = "" ∨ atom ∈ v.atoms)) ∨
      (v.add atom = ({ v with atoms := v.atoms ++ [atom], dirty := true }, true) ∧
        atom ≠ "" ∧ atom ∉ v.atoms) := by
  rw [Value.add]
  split
  next hold => exact .inl ⟨rfl, by simpa [contains] using hold⟩
  next hnew => exact .inr ⟨rfl, by simpa [contains] using hnew⟩

/-- One atom is added, then the others. -/
theorem addAll_cons (v : Value) (atom : String) (atoms : List String) :
    v.addAll (atom :: atoms) = (((v.add atom).1.addAll atoms).1,
      (v.add atom).2 || ((v.add atom).1.addAll atoms).2) :=
  rfl

/-- Adding atoms does nothing, or makes the row of them longer. -/
theorem addAll_cases (v : Value) (atoms : List String) :
    v.addAll atoms = (v, false) ∨ ∃ w : Value, v.addAll atoms = (w, true) ∧ w.dirty = true ∧
      v.atoms.length < w.atoms.length := by
  induction atoms generalizing v with
  | nil => exact .inl rfl
  | cons atom atoms ih =>
    rw [addAll_cons]
    rcases v.add_cases atom with ⟨hadd, -⟩ | ⟨hadd, -⟩
    · rw [hadd, Bool.false_or]
      exact ih v
    · refine .inr ⟨((v.add atom).1.addAll atoms).1, by rw [hadd, Bool.true_or], ?_⟩
      rcases ih (v.add atom).1 with hrest | ⟨w, hrest, hmark, hlength⟩
      · rw [hrest, hadd]
        simp
      · rw [hadd, List.length_append, List.length_singleton] at hlength
        rw [hrest]
        exact ⟨hmark, Nat.lt_of_succ_lt hlength⟩

/-- Taking atoms out does nothing if all of them pass the test. -/
theorem keep_cases (v : Value) (p : String → Bool) :
    (v.keep p = (v, false) ∧ ∀ a ∈ v.atoms, p a = true) ∨
      (v.keep p = ({ v with atoms := v.atoms.filter p, dirty := true }, true) ∧
        ∃ a ∈ v.atoms, ¬ p a = true) := by
  rw [Value.keep]
  split
  next hall => exact .inl ⟨rfl, List.all_eq_true.mp hall⟩
  next hall => exact .inr ⟨rfl, by simpa using hall⟩

/-- A row to which elements are added only once stays without repeats. -/
theorem nodup_foldl_once (xs : List String) {seen : List String} (h : seen.Nodup) :
    (xs.foldl (fun seen s => if seen.contains s then seen else seen ++ [s]) seen).Nodup := by
  induction xs generalizing seen with
  | nil => exact h
  | cons x xs ih =>
    rw [List.foldl_cons]
    split
    · exact ih h
    next hx =>
      refine ih (List.nodup_append.mpr ⟨h, List.nodup_singleton _, ?_⟩)
      rintro a ha b hb rfl
      rw [List.mem_singleton.mp hb] at ha
      exact hx (by simpa using ha)

/-- Elements that are added only once are still all there. -/
theorem mem_foldl_once {xs seen : List String} {a : String} :
    a ∈ xs.foldl (fun seen s => if seen.contains s then seen else seen ++ [s]) seen ↔
      a ∈ seen ∨ a ∈ xs := by
  induction xs generalizing seen with
  | nil => simp
  | cons x xs ih =>
    rw [List.foldl_cons, ih, List.mem_cons, ← or_assoc]
    refine or_congr_left ?_
    split
    next hx =>
      have hx : x ∈ seen := by simpa using hx
      exact ⟨.inl, fun h => h.elim id fun h => h ▸ hx⟩
    next => rw [List.mem_append, List.mem_singleton]

/-- The products are the texts of one list in front of those of another one. -/
theorem mem_products {xs ys : List String} {a : String} :
    a ∈ products xs ys ↔ ∃ x ∈ xs, ∃ y ∈ ys, x ++ y = a := by
  rw [products, mem_foldl_once]
  simp

theorem nodup_products (xs ys : List String) : (products xs ys).Nodup :=
  nodup_foldl_once _ List.nodup_nil

/-- Joining does nothing, takes over the right atoms if there are none on the left, or puts the
products in the place of the atoms. -/
theorem concat_cases (v w : Value) :
    (v.concat w = (v, false) ∧ (w.atoms = [] ∨ v.atoms ≠ [] ∧ products v.atoms w.atoms = v.atoms)) ∨
      (v.concat w = v.union w ∧ v.atoms = []) ∨
        (v.concat w = ({ v with atoms := products v.atoms w.atoms, dirty := true }, true) ∧
          v.atoms ≠ [] ∧ w.atoms ≠ []) := by
  have heq : v.concat w =
      if w.atoms.isEmpty then (v, false)
      else if v.atoms.isEmpty then v.union w
      else if products v.atoms w.atoms == v.atoms then (v, false)
      else ({ v with atoms := products v.atoms w.atoms, dirty := true }, true) := rfl
  rw [heq]
  split
  next hright => exact .inl ⟨rfl, .inl (List.isEmpty_iff.mp hright)⟩
  next hright =>
    split
    next hleft => exact .inr (.inl ⟨rfl, List.isEmpty_iff.mp hleft⟩)
    next hleft =>
      rw [List.isEmpty_iff] at hleft hright
      split
      next hsame => exact .inl ⟨rfl, .inr ⟨hleft, beq_iff_eq.mp hsame⟩⟩
      next => exact .inr (.inr ⟨rfl, hleft, hright⟩)

/-- Assigning does nothing if the value is equivalent, and else copies it. -/
theorem assign_cases (v w : Value) :
    (v.assign w = (v, false) ∧ v.isEquivalent w = true) ∨
      (v.assign w = ({ w with dirty := true }, true) ∧ v.isEquivalent w = false) := by
  rw [Value.assign]
  split
  next hsame => exact .inl ⟨rfl, hsame⟩
  next hnew => exact .inr ⟨rfl, Bool.eq_false_iff.mpr hnew⟩

/-! ### Properness -/

theorem proper_of_nil (h : v.atoms = []) : v.Proper :=
  ⟨by simp [h], by simp [h]⟩

/-- Properness is about the atoms only. -/
theorem Proper.congr (h : v.Proper) (heq : w.atoms = v.atoms) : w.Proper :=
  ⟨heq ▸ h.ne_empty, heq ▸ h.nodup⟩

/-- An atom is added only if it is new and not empty. -/
theorem Proper.add (h : v.Proper) (atom : String) : (v.add atom).1.Proper := by
  rcases v.add_cases atom with ⟨heq, -⟩ | ⟨heq, hne, hfresh⟩
  · rw [heq]
    exact h
  · rw [heq]
    refine ⟨fun a ha => ?_, List.nodup_append.mpr ⟨h.nodup, List.nodup_singleton _, ?_⟩⟩
    · rcases List.mem_append.mp ha with ha | ha
      · exact h.ne_empty a ha
      · rw [List.mem_singleton.mp ha]
        exact hne
    · rintro a ha b hb rfl
      exact hfresh (List.mem_singleton.mp hb ▸ ha)

theorem Proper.addAll (h : v.Proper) (atoms : List String) : (v.addAll atoms).1.Proper := by
  induction atoms generalizing v with
  | nil => exact h
  | cons atom atoms ih => exact ih (h.add atom)

/-- What is left of a set is one. -/
theorem Proper.keep (h : v.Proper) (p : String → Bool) : (v.keep p).1.Proper := by
  rcases v.keep_cases p with ⟨heq, -⟩ | ⟨heq, -⟩
  · rw [heq]
    exact h
  · rw [heq]
    exact ⟨fun a ha => h.ne_empty a (List.mem_of_mem_filter ha), h.nodup.filter p⟩

/-- Products begin with atoms that are not empty, and so are not empty either. -/
theorem Proper.concat (h : v.Proper) (w : Value) : (v.concat w).1.Proper := by
  rcases v.concat_cases w with ⟨heq, -⟩ | ⟨heq, -⟩ | ⟨heq, -⟩
  · rw [heq]
    exact h
  · rw [heq]
    exact h.addAll w.atoms
  · rw [heq]
    refine ⟨fun a ha => ?_, nodup_products v.atoms w.atoms⟩
    obtain ⟨x, hx, y, -, rfl⟩ := mem_products.mp ha
    -- what stands in front is not empty
    intro hempty
    exact h.ne_empty x hx (String.append_eq_empty_iff.mp hempty).1

/-- Every operation keeps a value proper. -/
theorem Proper.apply (h : v.Proper) (m : Mutation) : (m.apply v).1.Proper := by
  cases m with
  | setInteger n => exact h.congr (v.atoms_setInteger n)
  | add atom => exact h.add atom
  | union w => exact h.addAll w.atoms
  | erase | diff | inter => exact h.keep _
  | concat w => exact h.concat w
  | assign w =>
    rcases v.assign_cases w with ⟨heq, -⟩ | ⟨heq, -⟩
    · rw [Mutation.apply, heq]
      exact h
    · rw [Mutation.apply, heq]
      exact w.2.congr rfl
  | markDirty => exact h.congr rfl

theorem Proper.mutate (h : v.Proper) (ms : List Mutation) : (v.mutate ms).1.Proper := by
  induction ms generalizing v with
  | nil => exact h
  | cons m ms ih => exact ih (h.apply m)

/-! ### Marks -/

theorem add_of_clean {atom : String} (h : (v.add atom).1.dirty = false) : (v.add atom).1 = v := by
  rcases v.add_cases atom with ⟨heq, -⟩ | ⟨heq, -⟩
  · rw [heq]
  · rw [heq] at h
    cases h

/-- Atoms were added only if the value was marked. -/
theorem addAll_of_clean {atoms : List String} (h : (v.addAll atoms).1.dirty = false) :
    (v.addAll atoms).1 = v := by
  rcases v.addAll_cases atoms with heq | ⟨w, heq, hmark, -⟩
  · rw [heq]
  · rw [heq, hmark] at h
    cases h

theorem keep_of_clean {p : String → Bool} (h : (v.keep p).1.dirty = false) :
    (v.keep p).1 = v := by
  rcases v.keep_cases p with ⟨heq, -⟩ | ⟨heq, -⟩
  · rw [heq]
  · rw [heq] at h
    cases h

/-- Joining marks the value in all cases but the first. -/
theorem concat_of_clean (h : (v.concat w).1.dirty = false) : (v.concat w).1 = v := by
  rcases v.concat_cases w with ⟨heq, -⟩ | ⟨heq, -⟩ | ⟨heq, -⟩
  · rw [heq]
  · rw [heq] at h ⊢
    exact addAll_of_clean h
  · rw [heq] at h
    cases h

theorem setInteger_of_clean {n : Int64} (h : (v.setInteger n).1.dirty = false) :
    (v.setInteger n).1 = v := by
  rcases v.setInteger_cases n with ⟨heq, -⟩ | ⟨heq, -⟩
  · rw [heq]
  · rw [heq] at h
    cases h

/-- What is assigned comes with a mark. -/
theorem assign_of_clean (h : (v.assign w).1.dirty = false) : (v.assign w).1 = v := by
  rcases v.assign_cases w with ⟨heq, -⟩ | ⟨heq, -⟩
  · rw [heq]
  · rw [heq] at h
    cases h

/-- A value without a mark after an operation is as it was before. -/
theorem Mutation.apply_of_clean {m : Mutation} (h : (m.apply v).1.dirty = false) :
    (m.apply v).1 = v := by
  cases m with
  | setInteger n => exact setInteger_of_clean h
  | add atom => exact add_of_clean h
  | union w => exact addAll_of_clean h
  | erase | diff | inter => exact keep_of_clean h
  | concat w => exact concat_of_clean h
  | assign w => exact assign_of_clean h
  | markDirty => cases h

/-- A value without a mark after some operations is as it was before. -/
theorem mutate_of_clean {ms : List Mutation} (h : (v.mutate ms).1.dirty = false) :
    (v.mutate ms).1 = v := by
  induction ms generalizing v with
  | nil => rfl
  | cons m ms ih =>
    have hrest : (v.mutate (m :: ms)).1 = (m.apply v).1 := ih h
    rw [hrest] at h ⊢
    exact Mutation.apply_of_clean h

end Value

end Gamebook
