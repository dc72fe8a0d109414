import Gamebook.SortedMap
import Mathlib.Data.List.Nodup

/-!
# Laws of sorted maps

A sorted map is determined by what is found at its keys (`SortedMap.ext_get?`), and an entry is
found exactly if it is one of the map's entries (`get?_eq_some_iff`). A map that is put together
from a list holds the last entry of each key (`get?_ofList`); if the keys of the list increase, the
entries are the list itself (`entries_ofList`).
-/

namespace Gamebook.SortedMap

variable {κ α β : Type} [LT κ] [LE κ] [DecidableLT κ] [Std.IsLinearOrder κ]
  [Std.LawfulOrderLT κ] [DecidableEq κ]

omit [DecidableLT κ] [DecidableEq κ] [Std.IsLinearOrder κ] in
/-- No two entries have the same key. -/
theorem nodup_keys (m : SortedMap κ α) : m.keys.Nodup := by
  rw [keys, List.Nodup, List.pairwise_map]
  refine m.sorted.imp fun {e f} hlt heq => ?_
  rw [heq] at hlt
  exact Std.lt_irrefl hlt

omit [LT κ] [LE κ] [DecidableLT κ] [Std.IsLinearOrder κ] [Std.LawfulOrderLT κ] in
/-- In a list without repeated keys, the first entry of a key is its only one. -/
theorem find?_key_eq_some_iff {es : List (κ × α)} (hnd : (es.map (·.1)).Nodup) {k : κ} {a : α} :
    (es.find? fun e => e.1 = k).map (·.2) = some a ↔ (k, a) ∈ es := by
  induction es with
  | nil => simp
  | cons e rest ih =>
    rw [List.map_cons, List.nodup_cons] at hnd
    by_cases hk : e.1 = k
    · have hrest : (k, a) ∉ rest := fun hmem => hnd.1 (hk ▸ List.mem_map_of_mem (f := (·.1)) hmem)
      rw [List.find?_cons_of_pos (by simpa using hk), List.mem_cons]
      simp only [Option.map_some, Option.some.injEq, hrest, or_false]
      constructor
      · rintro rfl
        rw [← hk]
      · intro heq
        rw [← heq]
    · rw [List.find?_cons_of_neg (by simpa using hk), ih hnd.2, List.mem_cons]
      refine (or_iff_right fun heq => hk ?_).symm
      rw [← heq]

omit [DecidableLT κ] [Std.IsLinearOrder κ] in
theorem get?_eq_some_iff {m : SortedMap κ α} {k : κ} {a : α} :
    m.get? k = some a ↔ (k, a) ∈ m.entries :=
  find?_key_eq_some_iff m.nodup_keys

omit [DecidableLT κ] in
/-- Maps in which the same is found at every key are equal. -/
theorem ext_get? {m n : SortedMap κ α} (h : ∀ k, m.get? k = n.get? k) : m = n := by
  have hmem : ∀ e : κ × α, e ∈ m.entries ↔ e ∈ n.entries := fun e => by
    rw [← get?_eq_some_iff (k := e.1) (a := e.2), h, get?_eq_some_iff]
  have hnodup : ∀ l : SortedMap κ α, l.entries.Nodup := fun l => by
    have hkeys := l.nodup_keys
    rw [keys] at hkeys
    exact hkeys.of_map
  have hperm : m.entries.Perm n.entries :=
    (List.perm_ext_iff_of_nodup (hnodup m) (hnodup n)).mpr hmem
  refine SortedMap.ext (hperm.eq_of_pairwise ?_ m.sorted n.sorted)
  exact fun e f _ _ hef hfe => absurd (Std.lt_trans hef hfe) Std.lt_irrefl

/-! ### Changing maps -/

omit [LE κ] [DecidableLT κ] [Std.IsLinearOrder κ] [Std.LawfulOrderLT κ] in
@[simp]
theorem get?_mapValues (m : SortedMap κ α) (f : α → β) (k : κ) :
    (m.mapValues f).get? k = (m.get? k).map f := by
  simp only [get?, mapValues, List.find?_map, Option.map_map]
  rfl

omit [DecidableLT κ] [Std.IsLinearOrder κ] in
@[simp]
theorem get?_filterKeys (m : SortedMap κ α) (p : κ → Bool) (k : κ) :
    (m.filterKeys p).get? k = if p k then m.get? k else none := by
  refine Option.ext fun a => ?_
  rw [get?_eq_some_iff, filterKeys, List.mem_filter]
  by_cases hp : p k
  · simp only [hp, and_true, if_true, get?_eq_some_iff]
  · simp [hp]

omit [DecidableEq κ] in
theorem mem_insert {m : SortedMap κ α} {k : κ} {a : α} {e : κ × α}
    (h : e ∈ (m.insert k a).entries) : e = (k, a) ∨ e ∈ m.entries :=
  mem_insertEntry h

/-! ### Maps of lists -/

omit [DecidableEq κ] in
/-- A map of some entries has no others. -/
theorem mem_ofList {es : List (κ × α)} {e : κ × α} (h : e ∈ (ofList es).entries) : e ∈ es := by
  have hfold : ∀ (es : List (κ × α)) {m : SortedMap κ α},
      e ∈ (es.foldl (fun m e => m.insert e.1 e.2) m).entries → e ∈ m.entries ∨ e ∈ es := by
    intro es
    induction es with
    | nil => exact fun h => .inl h
    | cons e' es ih =>
      intro m h
      rcases ih h with h | h
      · rcases mem_insert h with rfl | h
        · exact .inr List.mem_cons_self
        · exact .inl h
      · exact .inr (List.mem_cons_of_mem e' h)
  exact (hfold es h).resolve_left (by simp [empty])

/-- Entries that are put in one after the other hide what was there at their keys. -/
theorem get?_foldl_insert (m : SortedMap κ α) (es : List (κ × α)) (k : κ) :
    (es.foldl (fun m e => m.insert e.1 e.2) m).get? k =
      ((es.reverse.find? fun e => e.1 = k).map (·.2)).or (m.get? k) := by
  induction es generalizing m with
  | nil => simp
  | cons e rest ih =>
    rw [List.foldl_cons, ih, get?_insert, List.reverse_cons, List.find?_append]
    cases hrest : rest.reverse.find? fun e => e.1 = k with
    | some f => simp
    | none => by_cases hk : e.1 = k <;> simp [hk]

/-- Of the entries of a list with one key the last counts. -/
theorem get?_ofList (es : List (κ × α)) (k : κ) :
    (ofList es).get? k = (es.reverse.find? fun e => e.1 = k).map (·.2) := by
  rw [ofList, get?_foldl_insert, get?_empty, Option.or_none]

omit [DecidableEq κ] in
theorem ofList_append_singleton (es : List (κ × α)) (k : κ) (a : α) :
    ofList (es ++ [(k, a)]) = (ofList es).insert k a := by
  rw [ofList, List.foldl_append]
  rfl

/-- In a map of a list without repeated keys every entry of the list is found. -/
theorem get?_ofList_of_nodup {es : List (κ × α)} (hnd : (es.map (·.1)).Nodup) {k : κ} {a : α} :
    (ofList es).get? k = some a ↔ (k, a) ∈ es := by
  have hrev : (es.reverse.map (·.1)).Nodup := by
    rw [List.map_reverse]
    exact List.nodup_reverse.2 hnd
  rw [get?_ofList, find?_key_eq_some_iff hrev, List.mem_reverse]

omit [DecidableEq κ] in
/-- An entry behind all others is put at the end. -/
theorem insertEntry_of_lt {es : List (κ × α)} {k : κ} {a : α} (h : ∀ e ∈ es, e.1 < k) :
    insertEntry k a es = es ++ [(k, a)] := by
  induction es with
  | nil => rfl
  | cons e rest ih =>
    have hlt : e.1 < k := h e List.mem_cons_self
    rw [insertEntry, if_neg (Std.not_lt.mpr (Std.le_of_lt hlt)), if_pos hlt,
      ih fun f hf => h f (List.mem_cons_of_mem e hf)]
    rfl

omit [DecidableEq κ] in
theorem entries_foldl_insert (m : SortedMap κ α) (es : List (κ × α))
    (h : (m.entries ++ es).Pairwise fun e f => e.1 < f.1) :
    (es.foldl (fun m e => m.insert e.1 e.2) m).entries = m.entries ++ es := by
  induction es generalizing m with
  | nil => simp
  | cons e rest ih =>
    have hlt : ∀ f ∈ m.entries, f.1 < e.1 := fun f hf =>
      (List.pairwise_append.mp h).2.2 f hf e List.mem_cons_self
    have hinsert : (m.insert e.1 e.2).entries = m.entries ++ [e] := insertEntry_of_lt hlt
    rw [List.foldl_cons, ih _ (by rw [hinsert]; simpa using h), hinsert]
    simp

omit [DecidableEq κ] in
/-- A list with increasing keys is the row of entries of its map. -/
theorem entries_ofList {es : List (κ × α)} (h : es.Pairwise fun e f => e.1 < f.1) :
    (ofList es).entries = es :=
  entries_foldl_insert empty es h

omit [DecidableEq κ] in
/-- A map is put together again from its entries. -/
@[simp]
theorem ofList_entries (m : SortedMap κ α) : ofList m.entries = m :=
  SortedMap.ext (entries_ofList m.sorted)

end Gamebook.SortedMap
