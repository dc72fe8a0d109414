/-!
# Sorted maps

A finite map as the list of its entries, with increasing keys. What is written out goes in the
order of the keys, and two maps with the same entries are equal.
-/

namespace Gamebook

variable {κ α : Type} [LT κ] [LE κ] [DecidableLT κ] [Std.IsLinearOrder κ] [Std.LawfulOrderLT κ]

namespace SortedMap

/-- Put an entry into a list with increasing keys, in the place of one with its key. -/
def insertEntry (k : κ) (a : α) : List (κ × α) → List (κ × α)
  | [] => [(k, a)]
  | (j, b) :: rest =>
    if k < j then (k, a) :: (j, b) :: rest
    else if j < k then (j, b) :: insertEntry k a rest
    else (k, a) :: rest

omit [LE κ] [Std.IsLinearOrder κ] [Std.LawfulOrderLT κ] in
theorem mem_insertEntry {k : κ} {a : α} {es : List (κ × α)} {e : κ × α}
    (h : e ∈ insertEntry k a es) : e = (k, a) ∨ e ∈ es := by
  induction es with
  | nil => simpa [insertEntry] using h
  | cons e' rest ih =>
    simp only [insertEntry] at h
    split at h
    · simpa using h
    · split at h
      · rcases List.mem_cons.1 h with h | h
        · exact .inr (by simp [h])
        · exact (ih h).imp id fun h => by simp [h]
      · rcases List.mem_cons.1 h with h | h
        · exact .inl h
        · exact .inr (by simp [h])

theorem pairwise_insertEntry {k : κ} {a : α} {es : List (κ × α)}
    (h : es.Pairwise fun e f => e.1 < f.1) :
    (insertEntry k a es).Pairwise fun e f => e.1 < f.1 := by
  induction es with
  | nil => simp [insertEntry]
  | cons e rest ih =>
    have hrest := List.pairwise_cons.1 h
    simp only [insertEntry]
    split
    next hk =>
      refine List.pairwise_cons.2 ⟨fun f hf => ?_, h⟩
      rcases List.mem_cons.1 hf with rfl | hf
      · exact hk
      · exact Std.lt_trans hk (hrest.1 f hf)
    next hk =>
      split
      next hj =>
        refine List.pairwise_cons.2 ⟨fun f hf => ?_, ih hrest.2⟩
        rcases mem_insertEntry hf with rfl | hf
        · exact hj
        · exact hrest.1 f hf
      next hj =>
        have heq : k = e.1 := Std.le_antisymm (Std.not_lt.1 hj) (Std.not_lt.1 hk)
        exact List.pairwise_cons.2 ⟨fun f hf => heq ▸ hrest.1 f hf, hrest.2⟩

end SortedMap

/-- A finite map with its entries in the order of the keys. -/
structure SortedMap (κ α : Type) [LT κ] where
  entries : List (κ × α) := []
  sorted : entries.Pairwise (fun e f => e.1 < f.1) := by exact .nil

namespace SortedMap

omit [LE κ] [DecidableLT κ] [Std.IsLinearOrder κ] [Std.LawfulOrderLT κ] in
@[ext] theorem ext {m n : SortedMap κ α} (h : m.entries = n.entries) : m = n := by
  cases m
  cases n
  cases h
  rfl

instance [DecidableEq κ] [DecidableEq α] : DecidableEq (SortedMap κ α) := fun m n =>
  decidable_of_iff (m.entries = n.entries) ⟨ext, fun h => h ▸ rfl⟩

instance [Repr κ] [Repr α] : Repr (SortedMap κ α) := ⟨fun m n => reprPrec m.entries n⟩

/-- The map without entries. -/
def empty : SortedMap κ α := {}

instance : Inhabited (SortedMap κ α) := ⟨empty⟩

/-- The value at a key. -/
def get? [DecidableEq κ] (m : SortedMap κ α) (k : κ) : Option α :=
  (m.entries.find? fun e => e.1 = k).map (·.2)

/-- Whether a key has a value. -/
def contains [DecidableEq κ] (m : SortedMap κ α) (k : κ) : Bool :=
  (m.get? k).isSome

/-- Give a key a value. -/
def insert (m : SortedMap κ α) (k : κ) (a : α) : SortedMap κ α :=
  ⟨insertEntry k a m.entries, pairwise_insertEntry m.sorted⟩

/-- Keep the entries whose keys pass a test. -/
def filterKeys (m : SortedMap κ α) (p : κ → Bool) : SortedMap κ α :=
  ⟨m.entries.filter fun e => p e.1, m.sorted.filter _⟩

/-- Take a key out. -/
def erase [DecidableEq κ] (m : SortedMap κ α) (k : κ) : SortedMap κ α :=
  m.filterKeys (· ≠ k)

/-- Change every value. -/
def mapValues {β : Type} (m : SortedMap κ α) (f : α → β) : SortedMap κ β :=
  ⟨m.entries.map fun e => (e.1, f e.2), List.pairwise_map.2 m.sorted⟩

/-- The keys, in their order. -/
def keys (m : SortedMap κ α) : List κ :=
  m.entries.map (·.1)

/-- The values, in the order of their keys. -/
def values (m : SortedMap κ α) : List α :=
  m.entries.map (·.2)

/-- The number of entries. -/
def size (m : SortedMap κ α) : Nat :=
  m.entries.length

/-- The map of some entries; of those with one key the last counts. -/
def ofList (es : List (κ × α)) : SortedMap κ α :=
  es.foldl (fun m e => m.insert e.1 e.2) empty

/-! ### Looking up -/

omit [LE κ] [Std.IsLinearOrder κ] [Std.LawfulOrderLT κ] [DecidableLT κ] in
@[simp] theorem get?_empty [DecidableEq κ] (k : κ) : (empty : SortedMap κ α).get? k = none := rfl

theorem get?_insert [DecidableEq κ] (m : SortedMap κ α) (j k : κ) (a : α) :
    (m.insert j a).get? k = if j = k then some a else m.get? k := by
  suffices h : ∀ es : List (κ × α), ((insertEntry j a es).find? fun e => e.1 = k).map (·.2) =
      if j = k then some a else (es.find? fun e => e.1 = k).map (·.2) from h m.entries
  intro es
  induction es with
  | nil => by_cases h : j = k <;> simp [insertEntry, h]
  | cons e rest ih =>
    simp only [insertEntry]
    split
    · by_cases h : j = k <;> simp [h]
    next hk =>
      split
      next hj =>
        have hne : e.1 ≠ j := fun h => Std.lt_irrefl (h ▸ hj)
        by_cases h : e.1 = k
        · have : j ≠ k := fun h' => hne (h.trans h'.symm)
          simp [h, this]
        · simp only [List.find?_cons, h, decide_false]
          exact ih
      next hj =>
        have heq : j = e.1 := Std.le_antisymm (Std.not_lt.1 hj) (Std.not_lt.1 hk)
        by_cases h : j = k
        · simp [h]
        · have : e.1 ≠ k := fun h' => h (heq.trans h')
          simp [h, this]

end SortedMap

end Gamebook
