import Gamebook.Proofs.Session.Logs

/-!
# Recording, going back, and reading the logs

What the operations of a history do to logs that fit together, said by the list of writes. A value
is recorded at the end of the list unless it is what its noun has there already
(`writes_recordValue`); going back to a moment keeps the writes up to it (`writes_truncate`); and
the literals at a moment are the last ones that the nouns were given up to it (`ofList_valuesAt`).
All operations keep the logs consistent.
-/

namespace Gamebook.History

variable {h : History}

/-! ### Actions and assets -/

/-- The invariant does not speak of actions. -/
theorem Consistent.recordAction (hc : h.Consistent) (entry : String) :
    (h.recordAction entry).Consistent :=
  ⟨hc.nodup_names, hc.change_tracked, hc.lengths_eq, hc.values_chain, hc.assets_chain⟩

/-- Recording assets touches no other log, and puts at most one set at the end. -/
theorem recordAssets_cases (h : History) {active : List String}
    (hsorted : active.Pairwise (· < ·)) :
    (h.assets.getLastD [] = active ∧ (h.recordAssets active).1 = h) ∨
      (h.assets.getLastD [] ≠ active ∧
        (h.recordAssets active).1 = { h with assets := h.assets ++ [active] }) := by
  have hsort : active.mergeSort = active :=
    List.mergeSort_of_pairwise (hsorted.imp fun hlt => by simpa using Std.le_of_lt hlt)
  by_cases heq : h.assets.getLastD [] = active
  · exact .inl ⟨heq, by simp only [recordAssets, hsort, heq, beq_self_eq_true, if_true]⟩
  · exact .inr ⟨heq, by simp only [recordAssets, hsort, beq_eq_false_iff_ne.mpr heq]; rfl⟩

/-- A set of assets is put at the end only if it differs from the last one, so no two neighbours are
the same. -/
theorem Consistent.recordAssets (hc : h.Consistent) {active : List String}
    (hsorted : active.Pairwise (· < ·)) : (h.recordAssets active).1.Consistent := by
  rcases h.recordAssets_cases hsorted with ⟨-, heq⟩ | ⟨hne, heq⟩
  · rwa [heq]
  · rw [heq]
    refine ⟨hc.nodup_names, hc.change_tracked, hc.lengths_eq, hc.values_chain, ?_⟩
    have hlast : ∀ x ∈ ([] :: h.assets).getLast?, x ≠ active := by
      intro x hx
      rw [List.getLast?_cons, Option.mem_some_iff] at hx
      rw [← hx, ← List.getLastD_eq_getLast?]
      exact hne
    rw [← List.cons_append, List.isChain_append]
    exact ⟨hc.assets_chain, .singleton _, fun x hx y hy => by simp_all⟩

/-! ### Registering variables -/

/-- What registering answers: the position of a variable of the name, which was there or is put at
the end without a history. -/
theorem register_cases (h : History) (name : String) :
    (∃ v, h.tracked[(h.register name).2]? = some v ∧ v.name = name ∧ (h.register name).1 = h) ∨
      ((∀ v ∈ h.tracked, v.name ≠ name) ∧ (h.register name).2 = h.tracked.length ∧
        (h.register name).1 = { h with tracked := h.tracked ++ [{ name }] }) := by
  unfold register index?
  cases hid : h.tracked.findIdx? fun v => v.name == name with
  | some id =>
    obtain ⟨hlt, hname, -⟩ := List.findIdx?_eq_some_iff_getElem.mp hid
    exact .inl ⟨h.tracked[id], List.getElem?_eq_getElem hlt, by simpa using hname, rfl⟩
  | none =>
    rw [List.findIdx?_eq_none_iff] at hid
    exact .inr ⟨fun v hv => by simpa using hid v hv, rfl, rfl⟩

/-- Registering finds or makes a variable of the name, and writes nothing. -/
theorem Consistent.register (hc : h.Consistent) (name : String) :
    (h.register name).1.Consistent ∧ (h.register name).1.writes = h.writes ∧
      ∃ v, (h.register name).1.tracked[(h.register name).2]? = some v ∧ v.name = name := by
  rcases h.register_cases name with ⟨v, hv, hname, heq⟩ | ⟨hfresh, hid, heq⟩
  · exact ⟨by rwa [heq], by rw [heq], v, by rwa [heq], hname⟩
  · rw [heq, hid]
    refine ⟨⟨?_, ?_, ?_, ?_, hc.assets_chain⟩, ?_, ⟨{ name }, by simp, rfl⟩⟩
    · rw [List.map_append, List.nodup_append]
      refine ⟨hc.nodup_names, List.nodup_singleton _, ?_⟩
      rintro a ha b hb rfl
      obtain ⟨v, hv, rfl⟩ := List.mem_map.mp ha
      exact hfresh v hv (by simpa using hb)
    · intro c hmem
      have := hc.change_tracked c hmem
      simp only [List.length_append, List.length_singleton]
      omega
    · intro id v hv
      rcases Nat.lt_or_ge id h.tracked.length with hlt | hge
      · exact hc.lengths_eq id v (by rwa [List.getElem?_append_left hlt] at hv)
      · obtain ⟨rfl, rfl⟩ : id = h.tracked.length ∧ v = { name } := by
          rw [List.getElem?_append_right hge, List.getElem?_singleton] at hv
          split at hv
          · exact ⟨by omega, by simpa using hv.symm⟩
          · simp at hv
        -- no change is about a variable that was not there
        have hnone : ∀ c ∈ h.changes, c.1 ≠ h.tracked.length := fun c hmem =>
          (hc.change_tracked c hmem).ne
        simpa [lengths] using hnone
    · intro v hv
      rcases List.mem_append.mp hv with hv | hv
      · exact hc.values_chain v hv
      · rw [List.mem_singleton.mp hv]
        exact .nil
    · refine List.filterMap_congr fun c hmem => ?_
      simp only [write?, List.getElem?_append_left (hc.change_tracked c hmem)]

/-! ### Recording values -/

/-- The last literal in the history of a variable is the last one written to its noun. -/
theorem Consistent.getLast?_values (hc : h.Consistent) {v : Variable} (hv : v ∈ h.tracked) :
    v.values.getLast? = (SortedMap.ofList h.writes).get? v.name := by
  rw [SortedMap.get?_ofList, ← hc.filter_writes hv, List.getLast?_map,
    List.getLast?_eq_head?_reverse, ← List.filter_reverse, List.head?_filter]

/-- The logs with a further literal in the history of a variable, and a change that says so. -/
def extend (h : History) (id : Nat) (v : Variable) (literal : String) : History :=
  { h with
    tracked := h.tracked.modify id fun w => { w with values := w.values ++ [literal] }
    changes := h.changes ++ [(id, v.values.length + 1)] }

/-- Only the one variable gets a longer history. -/
theorem getElem?_extend {id : Nat} {v : Variable} (hv : h.tracked[id]? = some v) (literal : String)
    (j : Nat) : (h.extend id v literal).tracked[j]? =
      if j = id then some { v with values := v.values ++ [literal] } else h.tracked[j]? := by
  rw [extend, List.getElem?_modify]
  by_cases hj : j = id
  · rw [hj, hv]
    simp
  · rw [if_neg hj]
    simp only [Ne.symm hj, if_false]
    exact Option.map_id'

/-- A further literal that differs from the last one keeps the logs consistent: the new change is
the one that was due. -/
theorem Consistent.extend (hc : h.Consistent) {id : Nat} {v : Variable}
    (hv : h.tracked[id]? = some v) {literal : String} (hne : v.values.getLast? ≠ some literal) :
    (h.extend id v literal).Consistent := by
  have hlt : id < h.tracked.length := (List.getElem?_eq_some_iff.mp hv).1
  have hlen : (h.extend id v literal).tracked.length = h.tracked.length := List.length_modify ..
  refine ⟨?_, ?_, ?_, ?_, hc.assets_chain⟩
  · have hnames : (h.extend id v literal).tracked.map (·.name) = h.tracked.map (·.name) := by
      refine List.ext_getElem? fun j => ?_
      rw [List.getElem?_map, List.getElem?_map, getElem?_extend hv]
      split
      next hj => rw [hj, hv]; rfl
      next => rfl
    rw [hnames]
    exact hc.nodup_names
  · intro c hmem
    rw [hlen]
    rcases List.mem_append.mp hmem with hmem | hmem
    · exact hc.change_tracked c hmem
    · rw [List.mem_singleton.mp hmem]
      exact hlt
  · intro j w hw
    rw [getElem?_extend hv] at hw
    rw [History.extend, lengths_append]
    split at hw
    next hj =>
      obtain rfl : _ = w := Option.some.inj hw
      rw [hj, hc.lengths_eq id v hv, List.length_append, List.length_singleton, List.range'_concat]
      simp [lengths, Nat.add_comm]
    next hj =>
      rw [hc.lengths_eq j w hw]
      simp [lengths, Ne.symm hj]
  · intro w hw
    obtain ⟨j, hj⟩ := List.mem_iff_getElem?.mp hw
    rw [getElem?_extend hv] at hj
    split at hj
    · obtain rfl : _ = w := Option.some.inj hj
      rw [List.isChain_append]
      refine ⟨hc.values_chain v (List.mem_of_getElem? hv), .singleton _, fun x hx y hy => ?_⟩
      rintro rfl
      refine hne ?_
      rw [show literal = x by simpa using hy]
      exact hx
    · exact hc.values_chain w (List.mem_of_getElem? hj)

/-- A further literal is one further write. -/
theorem Consistent.writes_extend (hc : h.Consistent) {id : Nat} {v : Variable}
    (hv : h.tracked[id]? = some v) (literal : String) :
    (h.extend id v literal).writes = h.writes ++ [(v.name, literal)] := by
  have hold : h.changes.filterMap (h.extend id v literal).write? = h.writes := by
    refine List.filterMap_congr fun c hmem => ?_
    rw [write?, write?, getElem?_extend hv]
    split
    next hcid =>
      -- the literals in front of the new one are where they were
      obtain ⟨u, hu, hpos, hle⟩ := hc.change_in_range hmem
      obtain rfl : v = u := by rw [hcid, hv] at hu; exact Option.some.inj hu
      rw [hu, Option.bind_some, Option.bind_some, List.getElem?_append_left (by omega)]
    next => rfl
  have hnew :
      (h.extend id v literal).write? (id, v.values.length + 1) = some (v.name, literal) := by
    rw [write?, getElem?_extend hv, if_pos rfl]
    simp
  have hchanges : (h.extend id v literal).changes = h.changes ++ [(id, v.values.length + 1)] := rfl
  rw [writes, hchanges, List.filterMap_append, hold, List.filterMap_cons, hnew,
    List.filterMap_nil]

/-- Recording a value registers its noun, and then extends the history of that noun unless it ends
with the value. -/
theorem recordValue_eq {name literal : String} {v : Variable}
    (hv : (h.register name).1.tracked[(h.register name).2]? = some v) :
    (h.recordValue name literal).1 =
      if v.values.getLast? = some literal then (h.register name).1
      else (h.register name).1.extend (h.register name).2 v literal := by
  unfold recordValue
  simp only [hv, Option.map_some, Option.getD_some]
  by_cases hlast : v.values.getLast? = some literal
  · simp [hlast]
  · simp only [beq_eq_false_iff_ne.mpr hlast, if_neg hlast]
    rfl

/-- A value that the history of its noun ends with already is not recorded again. -/
theorem Consistent.recordValue (hc : h.Consistent) (name literal : String) :
    (h.recordValue name literal).1.Consistent := by
  obtain ⟨hreg, -, v, hv, -⟩ := hc.register name
  rw [recordValue_eq hv]
  split
  · exact hreg
  next hlast => exact hreg.extend hv hlast

/-- A value is written unless its noun has it already. -/
theorem Consistent.writes_recordValue (hc : h.Consistent) (name literal : String) :
    (h.recordValue name literal).1.writes =
      if (SortedMap.ofList h.writes).get? name = some literal then h.writes
      else h.writes ++ [(name, literal)] := by
  obtain ⟨hreg, hwrites, v, hv, rfl⟩ := hc.register name
  rw [recordValue_eq hv, hreg.getLast?_values (List.mem_of_getElem? hv), hwrites]
  split
  · exact hwrites
  · rw [hreg.writes_extend hv, hwrites]

/-- Recording values touches neither actions nor assets. -/
theorem recordValue_queue_assets (h : History) (name literal : String) :
    (h.recordValue name literal).1.queue = h.queue ∧
      (h.recordValue name literal).1.assets = h.assets := by
  have hreg : (h.register name).1.queue = h.queue ∧ (h.register name).1.assets = h.assets := by
    rcases h.register_cases name with ⟨v, -, -, heq⟩ | ⟨-, -, heq⟩ <;> rw [heq] <;> exact ⟨rfl, rfl⟩
  rcases hpair : h.register name with ⟨k, id⟩
  rw [hpair] at hreg
  simp only [recordValue, hpair]
  split <;> exact hreg

/-! ### Going back -/

/-- The greatest length is the greatest of all that the changes say of the variable. -/
theorem greatestLength_eq (changes : List (Nat × Nat)) (id : Nat) :
    greatestLength changes id = (lengths changes id).foldl max 0 := by
  rw [greatestLength, lengths, List.foldl_map]

theorem foldl_max_range' (k : Nat) : (List.range' 1 k).foldl max 0 = k := by
  induction k with
  | zero => rfl
  | succ k ih =>
    rw [List.range'_concat, List.foldl_append, ih]
    simp only [List.foldl_cons, List.foldl_nil]
    omega

/-- Cutting a history to the greatest length that the changes left over speak of keeps as much of
it as there was. -/
theorem Consistent.getElem?_truncate (hc : h.Consistent) (s : Snapshot) {id : Nat} {v : Variable}
    (hv : h.tracked[id]? = some v) : ∃ k ≤ v.values.length,
      lengths (h.changes.take s.changes) id = List.range' 1 k ∧
        (h.truncate s).tracked[id]? = some { v with values := v.values.take k } := by
  obtain ⟨k, hk, hlengths⟩ := hc.lengths_take hv s.changes
  refine ⟨k, hk, hlengths, ?_⟩
  have hgreatest : greatestLength (h.changes.take s.changes) id = k := by
    rw [greatestLength_eq, hlengths, foldl_max_range']
  simp only [truncate, List.getElem?_mapIdx, hv, Option.map_some, hgreatest]

theorem length_tracked_truncate (h : History) (s : Snapshot) :
    (h.truncate s).tracked.length = h.tracked.length :=
  List.length_mapIdx

/-- A cut takes no variable away. -/
theorem map_name_truncate (h : History) (s : Snapshot) :
    (h.truncate s).tracked.map (·.name) = h.tracked.map (·.name) := by
  refine List.ext_getElem? fun j => ?_
  simp only [truncate, List.getElem?_map, List.getElem?_mapIdx, Option.map_map]
  rfl

/-- What is left of consistent logs is consistent: each history is as long as the changes that are
left say. -/
theorem Consistent.truncate (hc : h.Consistent) (s : Snapshot) : (h.truncate s).Consistent := by
  have hback : ∀ {id : Nat} {w : Variable}, (h.truncate s).tracked[id]? = some w →
      ∃ v k, h.tracked[id]? = some v ∧ k ≤ v.values.length ∧
        lengths (h.changes.take s.changes) id = List.range' 1 k ∧
          w = { v with values := v.values.take k } := by
    intro id w hw
    have hlt : id < h.tracked.length := by
      rw [← h.length_tracked_truncate s]
      exact (List.getElem?_eq_some_iff.mp hw).1
    obtain ⟨k, hk, hlengths, heq⟩ := hc.getElem?_truncate s (List.getElem?_eq_getElem hlt)
    exact ⟨_, k, List.getElem?_eq_getElem hlt, hk, hlengths, Option.some.inj (hw.symm.trans heq)⟩
  refine ⟨?_, ?_, ?_, ?_, ?_⟩
  · rw [map_name_truncate]
    exact hc.nodup_names
  · intro c hmem
    rw [length_tracked_truncate]
    exact hc.change_tracked c (List.mem_of_mem_take hmem)
  · intro id w hw
    obtain ⟨v, k, -, hk, hlengths, rfl⟩ := hback hw
    rw [List.length_take, Nat.min_eq_left hk]
    exact hlengths
  · intro w hw
    obtain ⟨id, hid⟩ := List.mem_iff_getElem?.mp hw
    obtain ⟨v, k, hv, -, -, rfl⟩ := hback hid
    exact (hc.values_chain v (List.mem_of_getElem? hv)).take k
  · have htake := hc.assets_chain.take (s.assets + 1)
    rwa [List.take_succ_cons] at htake

/-- Going back to a moment keeps the writes up to it. -/
theorem Consistent.writes_truncate (hc : h.Consistent) (s : Snapshot) :
    (h.truncate s).writes = h.writes.take s.changes := by
  rw [hc.take_writes]
  refine List.filterMap_congr fun c hmem => ?_
  obtain ⟨v, hv, hpos, -⟩ := hc.change_in_range (List.mem_of_mem_take hmem)
  obtain ⟨k, hk, hlengths, htrunc⟩ := hc.getElem?_truncate s hv
  have hle : c.2 ≤ k := by
    have hlen : c.2 ∈ lengths (h.changes.take s.changes) c.1 := mem_lengths.mpr hmem
    rw [hlengths, List.mem_range'_1] at hlen
    omega
  rw [write?, write?, hv, htrunc, Option.bind_some, Option.bind_some,
    List.getElem?_take_of_lt (by omega)]

/-! ### Reading the logs -/

/-- The last length is the last one that the changes say of the variable. -/
theorem lastLength?_eq (changes : List (Nat × Nat)) (id : Nat) :
    lastLength? changes id = (lengths changes id).getLast? := by
  rw [lastLength?, lengths, List.getLast?_map, List.getLast?_eq_head?_reverse,
    ← List.filter_reverse, List.head?_filter]

/-- The literal of a variable after so many changes, as the list of writes has it. -/
theorem Consistent.literal_eq (hc : h.Consistent) {id : Nat} {v : Variable}
    (hv : h.tracked[id]? = some v) (n : Nat) :
    ((lastLength? (h.changes.take n) id).bind fun length => v.values[length - 1]?) =
      (SortedMap.ofList (h.writes.take n)).get? v.name := by
  obtain ⟨k, hk, hlengths⟩ := hc.lengths_take hv n
  have hlast : (SortedMap.ofList (h.writes.take n)).get? v.name = (v.values.take k).getLast? := by
    rw [← hc.filter_writes_take hv hk hlengths, SortedMap.get?_ofList, List.getLast?_map,
      List.getLast?_eq_head?_reverse, ← List.filter_reverse, List.head?_filter]
  rw [hlast, lastLength?_eq, hlengths]
  cases k with
  | zero => rfl
  | succ k =>
    rw [List.range'_concat, List.getLast?_append, List.take_add_one, List.getLast?_append,
      List.getElem?_eq_getElem (by omega)]
    simp only [List.getLast?_singleton, Option.some_or, Option.bind_some, Option.toList_some]
    rw [Nat.one_mul, Nat.add_sub_cancel_left, List.getElem?_eq_getElem (by omega)]

theorem Consistent.mem_valuesAt (hc : h.Consistent) {n : Nat} {e : String × String} :
    e ∈ h.valuesAt n ↔ (SortedMap.ofList (h.writes.take n)).get? e.1 = some e.2 := by
  simp only [valuesAt, List.mem_filterMap, Prod.exists, List.mk_mem_zipIdx_iff_getElem?]
  constructor
  · rintro ⟨v, id, hv, hliteral⟩
    obtain ⟨length, hlength, literal, hget, rfl⟩ : ∃ length,
        lastLength? (h.changes.take n) id = some length ∧
          ∃ literal, v.values[length - 1]? = some literal ∧ (v.name, literal) = e := by
      simpa [Option.bind_eq_some_iff] using hliteral
    rw [← hc.literal_eq hv, hlength]
    exact hget
  · intro hget
    have hwrite : e ∈ h.writes := by
      rw [SortedMap.get?_ofList, Option.map_eq_some_iff] at hget
      obtain ⟨w, hfind, hsnd⟩ := hget
      have hname : w.1 = e.1 := by simpa using List.find?_some hfind
      have hmem : w ∈ h.writes.take n := List.mem_reverse.mp (List.mem_of_find?_eq_some hfind)
      rw [← Prod.ext hname hsnd]
      exact List.mem_of_mem_take hmem
    obtain ⟨v, hv, hname⟩ := name_of_mem_writes hwrite
    obtain ⟨id, hid⟩ := List.mem_iff_getElem?.mp hv
    refine ⟨v, id, hid, ?_⟩
    rw [← hname, ← hc.literal_eq hid] at hget
    obtain ⟨length, hlength, hliteral⟩ := Option.bind_eq_some_iff.mp hget
    rw [hlength, Option.bind_some, hliteral, Option.map_some, hname]

/-- What is read off some elements of a list comes in the order of the list. -/
theorem map_filterMap_sublist {α β γ : Type} {f : α → Option β} {g : β → γ} {g' : α → γ}
    (hf : ∀ a b, f a = some b → g b = g' a) (l : List α) :
    ((l.filterMap f).map g).Sublist (l.map g') := by
  induction l with
  | nil => exact List.nil_sublist _
  | cons a l ih =>
    rw [List.filterMap_cons, List.map_cons]
    cases ha : f a with
    | none => exact ih.cons _
    | some b =>
      rw [List.map_cons, hf a b ha]
      exact ih.cons_cons _

/-- No noun has two literals at a moment. -/
theorem Consistent.nodup_valuesAt (hc : h.Consistent) (n : Nat) :
    ((h.valuesAt n).map (·.1)).Nodup := by
  have hnames : h.tracked.zipIdx.map (fun p => p.1.name) = h.tracked.map (·.name) :=
    calc h.tracked.zipIdx.map (fun p => p.1.name)
        = (h.tracked.zipIdx.map Prod.fst).map (·.name) := by rw [List.map_map]; rfl
      _ = h.tracked.map (·.name) := by rw [List.zipIdx_map_fst]
  refine List.Nodup.sublist (hnames ▸ map_filterMap_sublist ?_ h.tracked.zipIdx) hc.nodup_names
  rintro ⟨v, id⟩ e he
  obtain ⟨length, -, literal, -, rfl⟩ : ∃ length,
      lastLength? (h.changes.take n) id = some length ∧
        ∃ literal, v.values[length - 1]? = some literal ∧ (v.name, literal) = e := by
    simpa [Option.bind_eq_some_iff] using he
  rfl

/-- The literals at a moment are the last ones written up to it. -/
theorem Consistent.ofList_valuesAt (hc : h.Consistent) (n : Nat) :
    SortedMap.ofList (h.valuesAt n) = SortedMap.ofList (h.writes.take n) := by
  refine SortedMap.ext_get? fun name => Option.ext fun literal => ?_
  rw [SortedMap.get?_ofList_of_nodup (hc.nodup_valuesAt n), hc.mem_valuesAt]

end Gamebook.History
