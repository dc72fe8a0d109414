import Gamebook.Proofs.Value.Changes
import Mathlib.Data.Finset.NAry

/-!
# Built values as sets

The atoms of a built value are a set (`Value.atomSet`), and the four operations on two values are
union, difference, intersection and the product of two sets (`Value.atomSet_ofOperator`); none of
them touches the integer. Two built values are equivalent exactly if they have the same integer and
the same set. So the operations, and what they answer, do not depend on the order in which the atoms
came in (`Value.Built.acts_on_sets`).
-/

namespace Gamebook

open Script

namespace Value

variable {v v' w w' : Value}

/-- The atoms, the order left aside. -/
def atomSet (v : Value) : Finset String :=
  v.atoms.toFinset

/-- The set holds what the list holds, whatever its order and its repetitions. -/
@[simp] theorem mem_atomSet {a : String} : a ∈ v.atomSet ↔ a ∈ v.atoms :=
  List.mem_toFinset

theorem atomSet_eq_empty : v.atomSet = ∅ ↔ v.atoms = [] :=
  List.toFinset_eq_empty_iff v.atoms

/-- The operation with a value on the right of an operator. -/
def Mutation.ofOperator (w : Value) : Operator → Mutation
  | .union => .union w
  | .difference => .diff w
  | .intersect => .inter w
  | .concat => .concat w

/-- What an operator makes of two sets. An empty side is passed over where texts are joined. -/
def onSets (s t : Finset String) : Operator → Finset String
  | .union => s ∪ t
  | .difference => s \ t
  | .intersect => s ∩ t
  | .concat => if t = ∅ then s else if s = ∅ then t else Finset.image₂ (· ++ ·) s t

/-! ### Atoms and integers -/

/-- Concatenating a value without atoms leaves the atoms as they are. -/
theorem atoms_concat_nil (h : w.atoms = []) : (v.concat w).1.atoms = v.atoms := by
  rcases v.concat_cases w with ⟨heq, -⟩ | ⟨heq, -⟩ | ⟨-, -, hright⟩
  · rw [heq]
  · rw [heq, union, h]
    rfl
  · exact absurd h hright

/-- A value without atoms takes over the atoms of what is concatenated to it. -/
theorem Proper.atoms_nil_concat (hw : w.Proper) (h : v.atoms = []) :
    (v.concat w).1.atoms = w.atoms := by
  rcases v.concat_cases w with ⟨heq, hright | ⟨hleft, -⟩⟩ | ⟨heq, -⟩ | ⟨-, hleft, -⟩
  · rw [heq, h, hright]
  · exact absurd h hleft
  · rw [heq]
    exact hw.atoms_union_of_nil h
  · exact absurd h hleft

theorem atoms_concat (hv : v.atoms ≠ []) (hw : w.atoms ≠ []) :
    (v.concat w).1.atoms = products v.atoms w.atoms := by
  rcases v.concat_cases w with ⟨heq, hright | ⟨-, hsame⟩⟩ | ⟨-, hleft⟩ | ⟨heq, -⟩
  · exact absurd hright hw
  · rw [heq, hsame]
  · exact absurd hleft hv
  · rw [heq]

/-- As a set, the result of concatenation is `onSets` of the two sets: the products, or the one side
that has atoms. -/
theorem atomSet_concat (hw : w.Proper) :
    (v.concat w).1.atomSet = onSets v.atomSet w.atomSet .concat := by
  rw [onSets]
  split
  next hright => rw [atomSet, atoms_concat_nil (atomSet_eq_empty.mp hright), atomSet]
  next hright =>
    split
    next hleft => rw [atomSet, hw.atoms_nil_concat (atomSet_eq_empty.mp hleft), atomSet]
    next hleft =>
      ext a
      rw [mem_atomSet, atoms_concat (mt atomSet_eq_empty.mpr hleft)
        (mt atomSet_eq_empty.mpr hright), mem_products]
      simp

/-- The operations on values are the operations on sets. -/
theorem atomSet_ofOperator (v : Value) (hw : w.Proper) (op : Operator) :
    ((Mutation.ofOperator w op).apply v).1.atomSet = onSets v.atomSet w.atomSet op := by
  cases op with
  | union =>
    ext a
    have hne : a ∈ w.atoms → a ≠ "" := hw.ne_empty a
    simp only [Mutation.ofOperator, Mutation.apply, onSets, union, mem_atomSet, mem_addAll_iff,
      Finset.mem_union]
    exact or_congr_right (and_iff_left_of_imp hne)
  | difference =>
    ext a
    simp [Mutation.ofOperator, Mutation.apply, onSets, diff, mem_keep_iff, contains]
  | intersect =>
    ext a
    simp [Mutation.ofOperator, Mutation.apply, onSets, inter, mem_keep_iff, contains]
  | concat => exact atomSet_concat hw

theorem integer_addAll (v : Value) (atoms : List String) :
    (v.addAll atoms).1.integer = v.integer := by
  induction atoms generalizing v with
  | nil => rfl
  | cons atom atoms ih =>
    rw [addAll_cons, ih]
    rcases v.add_cases atom with ⟨heq, -⟩ | ⟨heq, -⟩ <;> rw [heq]

theorem integer_keep (v : Value) (p : String → Bool) : (v.keep p).1.integer = v.integer := by
  rcases v.keep_cases p with ⟨heq, -⟩ | ⟨heq, -⟩ <;> rw [heq]

theorem integer_concat (v w : Value) : (v.concat w).1.integer = v.integer := by
  rcases v.concat_cases w with ⟨heq, -⟩ | ⟨heq, -⟩ | ⟨heq, -⟩
  · rw [heq]
  · rw [heq]
    exact integer_addAll v w.atoms
  · rw [heq]

/-- No operator touches the integer of the value on its left. -/
theorem integer_ofOperator (v w : Value) (op : Operator) :
    ((Mutation.ofOperator w op).apply v).1.integer = v.integer := by
  cases op with
  | union => exact integer_addAll v w.atoms
  | difference | intersect => exact integer_keep v _
  | concat => exact integer_concat v w

/-! ### Equivalence -/

/-- On proper values the equivalence is equality of the integers and of the sets of atoms. -/
theorem isEquivalent_iff_atomSet (hv : v.Proper) (hw : w.Proper) :
    v.isEquivalent w = true ↔ v.integer = w.integer ∧ v.atomSet = w.atomSet := by
  rw [isEquivalent_iff hw.nodup]
  exact and_congr_right fun _ => ⟨List.toFinset_eq_of_perm _ _,
    List.perm_of_nodup_nodup_toFinset_eq hv.nodup hw.nodup⟩

/-- Each operator between proper values tells truly whether it changed the left one. -/
theorem Proper.truthful_ofOperator (hv : v.Proper) (hw : w.Proper) (op : Operator) :
    v.Truthful ((Mutation.ofOperator w op).apply v) := by
  have hargument : (Mutation.ofOperator w op).argument? = some w := by cases op <;> rfl
  refine hv.truthful_apply (fun u hu => ?_) (by cases op <;> nofun)
  obtain rfl : w = u := by simpa [hargument] using hu
  exact hw

section Congruence

variable (hv : v.Proper) (hv' : v'.Proper) (hw : w.Proper) (hw' : w'.Proper)
  (h : v.isEquivalent v' = true) (h' : w.isEquivalent w' = true)

include hv hv' hw hw' h h'

/-- Equivalence asks nothing of two proper values but their integers and their sets. -/
theorem isEquivalent_congr : v.isEquivalent w = v'.isEquivalent w' := by
  obtain ⟨hinteger, hset⟩ := (isEquivalent_iff_atomSet hv hv').mp h
  obtain ⟨hinteger', hset'⟩ := (isEquivalent_iff_atomSet hw hw').mp h'
  rw [Bool.eq_iff_iff, isEquivalent_iff_atomSet hv hw, isEquivalent_iff_atomSet hv' hw', hinteger,
    hset, hinteger', hset']

/-- Operations on equivalent values give equivalent ones. -/
theorem isEquivalent_ofOperator (op : Operator) :
    ((Mutation.ofOperator w op).apply v).1.isEquivalent ((Mutation.ofOperator w' op).apply v').1 =
      true := by
  obtain ⟨hinteger, hset⟩ := (isEquivalent_iff_atomSet hv hv').mp h
  obtain ⟨-, hset'⟩ := (isEquivalent_iff_atomSet hw hw').mp h'
  rw [isEquivalent_iff_atomSet (hv.apply _) (hv'.apply _)]
  constructor
  · rw [integer_ofOperator, integer_ofOperator, hinteger]
  · rw [atomSet_ofOperator v hw, atomSet_ofOperator v' hw', hset, hset']

/-- Operations on equivalent values answer alike. -/
theorem changed_ofOperator (op : Operator) :
    ((Mutation.ofOperator w op).apply v).2 = ((Mutation.ofOperator w' op).apply v').2 := by
  have hnew := isEquivalent_ofOperator hv hv' hw hw' h h' op
  rw [Bool.eq_iff_iff, (hv.truthful_ofOperator hw op).changed_iff,
    (hv'.truthful_ofOperator hw' op).changed_iff,
    isEquivalent_congr (hv.apply _) (hv'.apply _) hv hv' hnew h]

end Congruence

/-! ### Built values -/

/-- What the operations make of two values: sets, in the order of the left one. -/
structure ActsOnSets (v w : Value) : Prop where
  /-- The missing atoms follow in the order of the right one. -/
  union : (v.union w).1.atoms = v.atoms ++ w.atoms.filter (· ∉ v.atoms)
  diff : (v.diff w).1.atoms = v.atoms.filter (· ∉ w.atoms)
  inter : (v.inter w).1.atoms = v.atoms.filter (· ∈ w.atoms)
  /-- Every atom of the one is joined to every atom of the other. -/
  concat : v.atoms ≠ [] → w.atoms ≠ [] →
    (v.concat w).1.atomSet = Finset.image₂ (· ++ ·) v.atomSet w.atomSet
  concat_nil : w.atoms = [] → (v.concat w).1.atoms = v.atoms
  nil_concat : v.atoms = [] → (v.concat w).1.atoms = w.atoms
  integer : ∀ op, ((Mutation.ofOperator w op).apply v).1.integer = v.integer
  equivalent : v.isEquivalent w = true ↔ v.integer = w.integer ∧ v.atomSet = w.atomSet

/-- The five operators are operations on sets: any two proper values meet the contract above. -/
theorem Proper.actsOnSets (hv : v.Proper) (hw : w.Proper) : v.ActsOnSets w where
  union := hw.atoms_union v
  diff := by
    rw [diff, atoms_keep]
    exact List.filter_congr fun a _ => by simp [contains]
  inter := by
    rw [inter, atoms_keep]
    exact List.filter_congr fun a _ => by simp [contains]
  concat hleft hright := by
    rw [atomSet_concat hw, onSets, if_neg (mt atomSet_eq_empty.mp hright),
      if_neg (mt atomSet_eq_empty.mp hleft)]
  concat_nil := atoms_concat_nil
  nil_concat := hw.atoms_nil_concat
  integer := integer_ofOperator v w
  equivalent := isEquivalent_iff_atomSet hv hw

/-- Built values are sets of texts, none of them empty, with an integer: the operations on two of
them are operations on sets that leave the integer alone, and do the same with equivalent values. -/
theorem Built.acts_on_sets (hv : v.Built) (hw : w.Built) :
    (∀ u : Value, u.Built ↔ u.Proper) ∧ v.ActsOnSets w ∧
      ∀ {v' w' : Value}, v'.Built → w'.Built → v.isEquivalent v' = true →
        w.isEquivalent w' = true →
          v.isEquivalent w = v'.isEquivalent w' ∧
            ∀ op, ((Mutation.ofOperator w op).apply v).1.isEquivalent
                ((Mutation.ofOperator w' op).apply v').1 = true ∧
              ((Mutation.ofOperator w op).apply v).2 =
                ((Mutation.ofOperator w' op).apply v').2 := by
  refine ⟨fun _ => built_iff_proper, hv.proper.actsOnSets hw.proper, fun hv' hw' h h' =>
    ⟨?_, fun op => ⟨?_, ?_⟩⟩⟩
  · exact isEquivalent_congr hv.proper hv'.proper hw.proper hw'.proper h h'
  · exact isEquivalent_ofOperator hv.proper hv'.proper hw.proper hw'.proper h h' op
  · exact changed_ofOperator hv.proper hv'.proper hw.proper hw'.proper h h' op

/-- Values that are written in another order are joined to the same texts, one of which comes about
in two ways. -/
theorem acts_on_sets_joined :
    ((ofLiteral "a,ab,#2").Built ∧ (ofAtoms ["b", "bb"]).Built ∧
      (ofLiteral "ab,#2,a").Built ∧ (ofAtoms ["bb", "b"]).Built ∧
      (ofLiteral "a,ab,#2").isEquivalent (ofLiteral "ab,#2,a") = true ∧
      (ofAtoms ["b", "bb"]).isEquivalent (ofAtoms ["bb", "b"]) = true) ∧
      ((ofLiteral "a,ab,#2").concat (ofAtoms ["b", "bb"])).1.atoms = ["ab", "abb", "abbb"] ∧
      ((ofLiteral "ab,#2,a").concat (ofAtoms ["bb", "b"])).1.atoms = ["abbb", "abb", "ab"] ∧
      ((ofLiteral "a,ab,#2").concat (ofAtoms ["b", "bb"])).1.isEquivalent
        ((ofLiteral "ab,#2,a").concat (ofAtoms ["bb", "b"])).1 = true := by
  have hleft : (ofLiteral "a,ab,#2").isEquivalent (ofLiteral "ab,#2,a") = true := by decide
  have hright : (ofAtoms ["b", "bb"]).isEquivalent (ofAtoms ["bb", "b"]) = true := by decide
  obtain ⟨-, -, hcongr⟩ := (Built.ofLiteral "a,ab,#2").acts_on_sets (.ofAtoms ["b", "bb"])
  obtain ⟨-, hoperations⟩ := hcongr (.ofLiteral "ab,#2,a") (.ofAtoms ["bb", "b"]) hleft hright
  exact ⟨⟨.ofLiteral _, .ofAtoms _, .ofLiteral _, .ofAtoms _, hleft, hright⟩, by decide, by decide,
    (hoperations .concat).1⟩

end Value

end Gamebook
