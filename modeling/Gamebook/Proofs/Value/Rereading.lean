import Gamebook.Proofs.Value.Membership

/-!
# Values that are written and read again

Reading trims every atom, escaped white space included. So a set of atoms is read back from its
literal exactly if none of them starts or ends with white space, and then in its order, also by the
reader that refuses a `#` without its numeral (`Value.literal_inverse`). What was read from a
literal once stays as it is, however often it is written and read.
-/

namespace Gamebook

namespace Value

variable {v w : Value}

/-! ### Trimmed values -/

/-- Whatever a literal says, no atom read from it starts or ends with white space. -/
theorem trimmed_ofLiteral (s : String) : (ofLiteral s).Trimmed := by
  intro a ha
  obtain ⟨cs, hcs⟩ := eq_trim_of_mem_pieces (mem_ofLiteral ha).2
  rw [hcs, Text.trim_trim]

/-- What is equivalent to a trimmed value holds no other atoms than it. -/
theorem Trimmed.of_isEquivalent (hv : v.Trimmed) (h : v.isEquivalent w = true) : w.Trimmed := by
  rw [isEquivalent, Bool.and_eq_true, containsAll_iff] at h
  exact fun a ha => hv a (h.2 a ha)

/-! ### Writing and reading -/

theorem readable_literalChars (hproper : v.Proper) (htrimmed : v.Trimmed) :
    Readable (pieces false [] v.literalChars) := by
  intro numeral hmem
  rw [pieces_literalChars hproper htrimmed] at hmem
  obtain rfl : numeral = Decimal.ofWord v.integer := by simpa using hmem
  rw [Decimal.toWord?_ofWord]
  rfl

/-- The reader that refuses a `#` without its numeral reads the value back, too. -/
theorem ofLiteral?_literal (hproper : v.Proper) (htrimmed : v.Trimmed) :
    ofLiteral? v.literal = .ok v.clearDirty := by
  refine ofLiteral?_eq_ok_iff.mpr ⟨?_, ofLiteral_literal hproper htrimmed⟩
  rw [literal, String.toList_ofList]
  exact readable_literalChars hproper htrimmed

/-- Writing and reading gives back the atoms that are trimmed, and no others. -/
theorem isEquivalent_literal_iff (hproper : v.Proper) :
    (ofLiteral v.literal).isEquivalent v = true ↔ v.Trimmed := by
  refine ⟨(trimmed_ofLiteral v.literal).of_isEquivalent, fun htrimmed => ?_⟩
  rw [ofLiteral_literal hproper htrimmed, isEquivalent_iff hproper.nodup]
  exact ⟨rfl, .refl v.atoms⟩

/-- Reading undoes writing exactly on the sets of trimmed atoms, and writing and reading changes
nothing about what was read before. A literal is one line, and never empty. -/
theorem literal_inverse (v : Value) (s : String) :
    (v.Proper → ((ofLiteral v.literal).isEquivalent v = true ↔ v.Trimmed) ∧
        (v.Trimmed → ofLiteral v.literal = v.clearDirty ∧
          ofLiteral? v.literal = .ok v.clearDirty)) ∧
      ofLiteral (ofLiteral s).literal = ofLiteral s ∧
      '\n' ∉ v.literal.toList ∧ v.literal ≠ "" := by
  refine ⟨fun hproper => ⟨isEquivalent_literal_iff hproper, fun htrimmed => ⟨?_, ?_⟩⟩, ?_,
    v.isLine_literal.no_feed, v.literal_ne_empty⟩
  · exact ofLiteral_literal hproper htrimmed
  · exact ofLiteral?_literal hproper htrimmed
  · exact ofLiteral_literal (proper_ofLiteral s) (trimmed_ofLiteral s)

/-- Atoms with all that is escaped in a literal, and the least integer. -/
def awkward : Value where
  atoms := ["#1", "a, b", "c\nd\\", "e#"]
  integer := Int64.minValue

/-- The awkward atoms are read back; an atom that starts with white space is not, whatever a reader
takes it for. -/
theorem literal_inverse_awkward :
    (awkward.Proper ∧ awkward.Trimmed) ∧
      awkward.literal = "\\#1,a\\, b,c\\nd\\\\,e#,#-9223372036854775808" ∧
      ofLiteral awkward.literal = awkward ∧ ofLiteral? awkward.literal = .ok awkward ∧
      (ofAtom " #1").Proper ∧ ¬ (ofLiteral (ofAtom " #1").literal).isEquivalent (ofAtom " #1") := by
  have hproper : awkward.Proper := by decide
  have htrimmed : awkward.Trimmed := by decide
  have hspace : (ofAtom " #1").Proper := by decide
  obtain ⟨hread, hread?⟩ := ((literal_inverse awkward "").1 hproper).2 htrimmed
  refine ⟨⟨hproper, htrimmed⟩, by decide, hread, hread?, hspace, fun h => ?_⟩
  exact absurd (((literal_inverse (ofAtom " #1") "").1 hspace).1.mp h) (by decide)

end Value

end Gamebook
