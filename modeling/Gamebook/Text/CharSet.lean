/-!
# Sets of characters

Most properties that Unicode gives to characters hold for whole runs of neighbouring code points. A
set of characters is therefore written down as the ranges of code points in it.
-/

namespace Gamebook.Text

/-- A set of characters: ranges of code points, each by its first and its last one. -/
structure CharSet where
  ranges : Array (Nat × Nat)

namespace CharSet

/-- Whether a character is in a set. -/
def contains (s : CharSet) (c : Char) : Bool :=
  s.ranges.any fun (first, last) => first ≤ c.toNat && c.toNat ≤ last

/-- A character is in a set exactly if one of the ranges holds its code point. -/
theorem contains_iff {s : CharSet} {c : Char} :
    s.contains c ↔ ∃ r ∈ s.ranges, r.1 ≤ c.toNat ∧ c.toNat ≤ r.2 := by
  simp only [contains, Array.any_eq_true', Bool.and_eq_true, decide_eq_true_eq]

end CharSet

end Gamebook.Text
