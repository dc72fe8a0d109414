import Gamebook.Proofs.Value.Membership

/-!
# Values that are built

A value is *built* if it comes from one of the ways to make a value, by operations whose arguments
are built in their turn. Values that were read from a stored document are left out, since nothing
looks at what a document gives for the atoms. The built values are the proper ones, all of them
(`Value.built_iff_proper`), so that what holds of proper values holds of every value in a play.
-/

namespace Gamebook

namespace Value

variable {v : Value}

/-- The other value that is made use of, if there is one. -/
def Mutation.argument? : Mutation → Option Value
  | union w | diff w | inter w | concat w => some w
  | assign w => some w
  | setInteger _ | add _ | erase _ | markDirty => none

/-- The values that operations lead to. -/
inductive Built : Value → Prop
  | empty : Built empty
  | ofLiteral (s : String) : Built (ofLiteral s)
  | ofLiteral? {s : String} {v : Value} (h : ofLiteral? s = .ok v) : Built v
  | ofAtom (atom : String) : Built (ofAtom atom)
  | ofAtoms (atoms : List String) : Built (ofAtoms atoms)
  | ofInteger (n : Int64) : Built (ofInteger n)
  | apply {v : Value} (hv : Built v) (m : Mutation) (hm : ∀ w ∈ m.argument?, Built w) :
      Built (m.apply v).1
  | clearDirty {v : Value} (hv : Built v) : Built v.clearDirty

theorem proper_ofAtoms (atoms : List String) : (ofAtoms atoms).Proper :=
  ((proper_of_nil (v := empty) rfl).addAll atoms).congr rfl

/-- Every built value holds a set of atoms, none of them empty. -/
theorem Built.proper (h : v.Built) : v.Proper := by
  induction h with
  | empty => exact proper_of_nil rfl
  | ofLiteral s => exact proper_ofLiteral s
  | ofLiteral? hread =>
    obtain ⟨-, rfl⟩ := ofLiteral?_eq_ok_iff.mp hread
    exact proper_ofLiteral _
  | ofAtom atom => exact proper_ofAtoms [atom]
  | ofAtoms atoms => exact proper_ofAtoms atoms
  | ofInteger n => exact proper_of_nil rfl
  | apply _ m _ ih _ => exact ih.apply m
  | clearDirty _ ih => exact ih.congr rfl

/-- Every set of atoms without the empty one is built, with any integer and mark. -/
theorem Proper.built (h : v.Proper) : v.Built := by
  have hatoms : (ofAtoms v.atoms).atoms = v.atoms := h.atoms_union_of_nil rfl
  have hclean : v.clearDirty.Built := by
    have heq : ((ofAtoms v.atoms).setInteger v.integer).1.clearDirty = v.clearDirty := by
      simp only [clearDirty, integer_setInteger, atoms_setInteger, hatoms]
    rw [← heq]
    refine ((Built.ofAtoms v.atoms).apply (.setInteger v.integer) ?_).clearDirty
    simp [Mutation.argument?]
  obtain ⟨atoms, n, _ | _⟩ := v
  · exact hclean
  · exact hclean.apply .markDirty (by simp [Mutation.argument?])

theorem built_iff_proper : v.Built ↔ v.Proper :=
  ⟨Built.proper, Proper.built⟩

end Value

end Gamebook
