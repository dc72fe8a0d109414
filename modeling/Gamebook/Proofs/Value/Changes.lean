import Gamebook.Proofs.Value.Built
import Mathlib.Data.Finset.Max

/-!
# Changes that are told

A session records the values that are marked, and an operation on a value answers whether it
changed. Both can be relied on (`Value.Built.apply_tells`): an operation on a built value either
leaves it as it is and says so, or gives a marked value that is not equivalent to the old one, and
says that (`Value.Truthful`).

The operations find this out in different ways. Only for joined atoms is it not plain that another
list of them is another set, too: the longest atom has become longer, so that there is a new one
(`Value.exists_new_product`).
-/

namespace Gamebook

namespace Value

variable {v w : Value} {r : Value × Bool}

/-- An answer that tells whether it leaves a value as it is: the answer is this value, or a marked
one that is not equivalent to it. -/
inductive Truthful (v : Value) : Value × Bool → Prop
  | kept : Truthful v (v, false)
  | changed {w : Value} (hmark : w.dirty = true) (hne : w.isEquivalent v = false) :
      Truthful v (w, true)

namespace Truthful

/-- The answer is that the value changed exactly if the new one is not equivalent to it. -/
theorem changed_iff (h : v.Truthful r) : r.2 = true ↔ r.1.isEquivalent v = false := by
  cases h with
  | kept => simp [isEquivalent_refl]
  | changed _ hne => simp [hne]

/-- A mark is put on what changed, and stays where it was. -/
theorem dirty_eq (h : v.Truthful r) : r.1.dirty = (v.dirty || r.2) := by
  cases h with
  | kept => exact (Bool.or_false _).symm
  | changed hmark _ => rw [hmark, Bool.or_true]

/-- What did not change is the same value, and not only an equivalent one. -/
theorem eq_of_unchanged (h : v.Truthful r) (hsame : r.2 = false) : r.1 = v := by
  cases h with
  | kept => rfl
  | changed => cases hsame

end Truthful

/-! ### Integers and single atoms -/

theorem truthful_setInteger (v : Value) (n : Int64) : v.Truthful (v.setInteger n) := by
  rcases v.setInteger_cases n with ⟨heq, -⟩ | ⟨heq, hne⟩
  · rw [heq]
    exact .kept
  · rw [heq]
    refine .changed rfl ?_
    rw [isEquivalent, beq_false_of_ne hne.symm, Bool.false_and, Bool.false_and]

theorem truthful_add (v : Value) (atom : String) : v.Truthful (v.add atom) := by
  rcases v.add_cases atom with ⟨heq, -⟩ | ⟨heq, -⟩
  · rw [heq]
    exact .kept
  · rw [heq]
    exact .changed rfl (not_isEquivalent_of_length_ne (by simp))

/-- More atoms than before make another set. -/
theorem truthful_addAll (v : Value) (atoms : List String) : v.Truthful (v.addAll atoms) := by
  rcases v.addAll_cases atoms with heq | ⟨w, heq, hmark, hlength⟩
  · rw [heq]
    exact .kept
  · rw [heq]
    exact .changed hmark (not_isEquivalent_of_length_ne (Nat.ne_of_gt hlength))

/-- Fewer atoms than before make another set. -/
theorem truthful_keep (v : Value) (p : String → Bool) : v.Truthful (v.keep p) := by
  rcases v.keep_cases p with ⟨heq, -⟩ | ⟨heq, hout⟩
  · rw [heq]
    exact .kept
  · rw [heq]
    refine .changed rfl (not_isEquivalent_of_length_ne (Nat.ne_of_lt ?_))
    exact List.length_filter_lt_length_iff_exists.mpr hout

/-! ### Joined atoms and whole values -/

/-- What is joined to the longest of some texts is none of them. -/
theorem exists_new_product {xs ys : List String} (hxs : xs ≠ []) {y : String} (hy : y ∈ ys)
    (hne : y ≠ "") : ∃ a ∈ products xs ys, a ∉ xs := by
  obtain ⟨x, hx, hlongest⟩ := xs.toFinset.exists_max_image String.length
    (List.toFinset_nonempty_iff xs |>.mpr hxs)
  refine ⟨x ++ y, mem_products.mpr ⟨x, List.mem_toFinset.mp hx, y, hy, rfl⟩, fun hmem => ?_⟩
  have hle : (x ++ y).length ≤ x.length := hlongest _ (List.mem_toFinset.mpr hmem)
  have hpos : 0 < y.length := Nat.pos_of_ne_zero fun h => hne (String.length_eq_zero_iff.mp h)
  rw [String.length_append] at hle
  omega

/-- Joined atoms have a new one among them, so they are another set. -/
theorem Proper.truthful_concat (hv : v.Proper) (hw : w.Proper) : v.Truthful (v.concat w) := by
  rcases v.concat_cases w with ⟨heq, -⟩ | ⟨heq, -⟩ | ⟨heq, hleft, hright⟩
  · rw [heq]
    exact .kept
  · rw [heq]
    exact truthful_addAll v w.atoms
  · rw [heq]
    refine .changed rfl (Bool.eq_false_iff.mpr fun hsame => ?_)
    obtain ⟨y, hy⟩ := List.exists_mem_of_ne_nil w.atoms hright
    obtain ⟨a, ha, hnew⟩ := exists_new_product hleft hy (hw.ne_empty y hy)
    exact hnew (((isEquivalent_iff hv.nodup).mp hsame).2.mem_iff.mp ha)

theorem Proper.truthful_assign (hv : v.Proper) (hw : w.Proper) : v.Truthful (v.assign w) := by
  rcases v.assign_cases w with ⟨heq, -⟩ | ⟨heq, hne⟩
  · rw [heq]
    exact .kept
  · rw [heq]
    rw [isEquivalent_comm hv hw] at hne
    exact .changed rfl hne

/-! ### All operations -/

/-- What any operation but marking answers is true. -/
theorem Proper.truthful_apply (hv : v.Proper) {m : Mutation}
    (hm : ∀ w ∈ m.argument?, w.Proper) (hmark : m ≠ .markDirty) : v.Truthful (m.apply v) := by
  cases m with
  | setInteger n => exact truthful_setInteger v n
  | add atom => exact truthful_add v atom
  | union w => exact truthful_addAll v w.atoms
  | erase | diff | inter => exact truthful_keep v _
  | concat w => exact hv.truthful_concat (hm w rfl)
  | assign w => exact hv.truthful_assign w.2
  | markDirty => exact absurd rfl hmark

/-- An operation on a built value answers whether the new value is not equivalent to the old one,
marks the value if it answers so, and else leaves it as it was. -/
theorem Built.apply_tells (hv : v.Built) {m : Mutation} (hm : ∀ w ∈ m.argument?, w.Built)
    (hmark : m ≠ .markDirty) :
    ((m.apply v).2 = true ↔ (m.apply v).1.isEquivalent v = false) ∧
      (m.apply v).1.dirty = (v.dirty || (m.apply v).2) ∧
      ((m.apply v).2 = false → (m.apply v).1 = v) := by
  have htruthful : v.Truthful (m.apply v) :=
    hv.proper.truthful_apply (fun w hw => (hm w hw).proper) hmark
  exact ⟨htruthful.changed_iff, htruthful.dirty_eq, htruthful.eq_of_unchanged⟩

/-- Joined atoms of which one was there before, and two come about in two ways. -/
theorem apply_tells_joined :
    (ofAtoms ["a", "ab"]).Built ∧
      (∀ w ∈ (Mutation.concat (ofAtoms ["b", "bb"])).argument?, w.Built) ∧
      (ofAtoms ["a", "ab"]).concat (ofAtoms ["b", "bb"]) =
        ({ atoms := ["ab", "abb", "abbb"], dirty := true }, true) ∧
      ((ofAtoms ["a", "ab"]).concat (ofAtoms ["b", "bb"])).1.isEquivalent (ofAtoms ["a", "ab"]) =
        false := by
  have hv : (ofAtoms ["a", "ab"]).Built := .ofAtoms _
  have hw : ∀ w ∈ (Mutation.concat (ofAtoms ["b", "bb"])).argument?, w.Built := by
    rintro w ⟨⟩
    exact .ofAtoms _
  have hjoined : (ofAtoms ["a", "ab"]).concat (ofAtoms ["b", "bb"]) =
      ({ atoms := ["ab", "abb", "abbb"], dirty := true }, true) := by decide
  exact ⟨hv, hw, hjoined, (hv.apply_tells hw nofun).1.mp (congrArg Prod.snd hjoined)⟩

end Value

end Gamebook
