import Gamebook.Proofs.Value.Built
import Gamebook.Story.Export
import Mathlib.Data.Fintype.EquivFin
import Mathlib.Data.List.Dedup

/-!
# Equivalence of all values

Stored documents give values as they stand, whatever their atoms (`Value.ofJson?_toJson`).
Equivalence of values is decided by one integer, one length and one inclusion. For all values it is
reflexive and transitive; it can be turned round to a value exactly if no atom is repeated there
(`Value.isEquivalent_symm_iff`), as it is with the built ones. So documents with repeated atoms can
give two values of which only one is equivalent to the other (`Value.isEquivalent_repeated`).
-/

namespace Gamebook

/-! ### Documents -/

theorem JsonDocument.strings?_texts (ss : List String) : (texts ss).strings? = some ss := by
  rw [texts, strings?, List.mapM_map]
  exact (List.mapM_pure (m := Option) (f := id)).trans (congrArg some (List.map_id ss))

namespace Value

/-- Any atoms and any integer are given by some document. -/
theorem ofJson?_toJson (v : Value) : ofJson? v.toJson = some v.clearDirty := by
  have hread : ofJson? v.toJson = (JsonDocument.texts v.atoms).strings?.bind fun atoms =>
    (Decimal.word? v.integer.toInt).bind fun n => some { atoms, integer := n } := rfl
  rw [hread, JsonDocument.strings?_texts, Decimal.word?_toInt]
  rfl

/-! ### Repeated atoms -/

/-- The value with another text in place of the atoms that are repeated. -/
def replaceRepeats (v : Value) (atom : String) : Value :=
  { v with
    atoms := v.atoms.dedup ++ List.replicate (v.atoms.length - v.atoms.dedup.length) atom }

theorem isEquivalent_replaceRepeats (v : Value) (atom : String) :
    (v.replaceRepeats atom).isEquivalent v = true := by
  have hle : v.atoms.dedup.length ≤ v.atoms.length := (List.dedup_sublist v.atoms).length_le
  simp only [isEquivalent, replaceRepeats, Bool.and_eq_true, beq_iff_eq, containsAll_iff,
    List.length_append, List.length_replicate, List.mem_append]
  exact ⟨⟨trivial, by omega⟩, fun a ha => .inl (List.mem_dedup.mpr ha)⟩

theorem mem_replaceRepeats {v : Value} (h : ¬ v.atoms.Nodup) (atom : String) :
    atom ∈ (v.replaceRepeats atom).atoms := by
  have hsub : v.atoms.dedup.Sublist v.atoms := List.dedup_sublist v.atoms
  have hne : v.atoms.dedup.length ≠ v.atoms.length :=
    fun heq => h (List.dedup_eq_self.mp (hsub.eq_of_length heq))
  refine List.mem_append_right _ (List.mem_replicate.mpr ⟨?_, rfl⟩)
  have hle := hsub.length_le
  omega

/-- What is equivalent to a value is so the other way round, if no atom is repeated in the value,
and not always if one is. -/
theorem isEquivalent_symm_iff (w : Value) :
    (∀ v : Value, v.isEquivalent w = true → w.isEquivalent v = true) ↔ w.atoms.Nodup := by
  refine ⟨fun hsymm => ?_, fun hnodup v h => ?_⟩
  · by_contra hrepeat
    obtain ⟨fresh, hfresh⟩ := Infinite.exists_notMem_finset w.atoms.toFinset
    have hback := hsymm _ (w.isEquivalent_replaceRepeats fresh)
    rw [isEquivalent, Bool.and_eq_true, containsAll_iff] at hback
    exact hfresh (List.mem_toFinset.mpr (hback.2 fresh (mem_replaceRepeats hrepeat fresh)))
  · obtain ⟨hinteger, hperm⟩ := (isEquivalent_iff hnodup).mp h
    exact (isEquivalent_iff (hperm.nodup_iff.mpr hnodup)).mpr ⟨hinteger.symm, hperm.symm⟩

/-- The laws of equality that equivalence keeps for all values, and where it keeps the third one.
Built values keep them all; a document can give any atoms. -/
theorem isEquivalent_laws (u v w : Value) :
    v.isEquivalent v = true ∧
      (u.isEquivalent v = true → v.isEquivalent w = true → u.isEquivalent w = true) ∧
      ((∀ x : Value, x.isEquivalent w = true → w.isEquivalent x = true) ↔ w.atoms.Nodup) ∧
      (w.Built → w.atoms.Nodup) ∧ ofJson? w.toJson = some w.clearDirty :=
  ⟨v.isEquivalent_refl, isEquivalent_trans, w.isEquivalent_symm_iff, fun hw => hw.proper.nodup,
    w.ofJson?_toJson⟩

/-- Values of two documents with the same atoms in another order, compared both ways and over the
one in the middle. -/
theorem isEquivalent_laws_swapped :
    ["b", "a"].Nodup ∧ isEquivalent { atoms := ["a", "b"] } { atoms := ["b", "a"] } = true ∧
      isEquivalent { atoms := ["b", "a"] } { atoms := ["a", "b"] } = true ∧
      isEquivalent { atoms := ["a", "b"] } { atoms := ["a", "b"] } = true := by
  have hnodup : ["b", "a"].Nodup := by decide
  have h : isEquivalent { atoms := ["a", "b"] } { atoms := ["b", "a"] } = true := by decide
  have hlaws := isEquivalent_laws { atoms := ["a", "b"] } { atoms := ["b", "a"] }
  have hback := (hlaws { atoms := ["b", "a"] }).2.2.1.mpr hnodup _ h
  exact ⟨hnodup, h, hback, (hlaws { atoms := ["a", "b"] }).2.1 h hback⟩

/-- Two documents of which the second repeats an atom: the value of the first is equivalent to that
of the second, but not the other way round. -/
theorem isEquivalent_repeated :
    ofJson? (.object [("text_values", .texts ["a", "b"]), ("integer", .integer 0)]) =
        some { atoms := ["a", "b"] } ∧
      ofJson? (.object [("text_values", .texts ["a", "a"]), ("integer", .integer 0)]) =
        some { atoms := ["a", "a"] } ∧
      isEquivalent { atoms := ["a", "b"] } { atoms := ["a", "a"] } = true ∧
      isEquivalent { atoms := ["a", "a"] } { atoms := ["a", "b"] } = false :=
  ⟨rfl, rfl, by decide, by decide⟩

end Value

end Gamebook
