import Gamebook.Proofs.Session.Invariant
import Mathlib.Data.List.ReduceOption

/-!
# Operations that fail at a bad lookup

The operations of a session are total: a lookup outside a log answers with a default, a difference
stops at zero, and a cut behind the end keeps everything. `Session.strict?` does the same work, but
fails at any of these. In a consistent session it never does (`Consistent.strict?_eq`), so no
operation relies on a default: the invariant and this hold after every run (`run_consistent`).
-/

namespace Gamebook

/-! ### Strict steps -/

/-- The difference of two numbers; fails if it would be below zero. -/
def difference? (m n : Nat) : Option Nat :=
  if n ≤ m then some (m - n) else none

/-- So many entries of a list; fails if there are fewer. -/
def cut? {α : Type} (l : List α) (n : Nat) : Option (List α) :=
  if n ≤ l.length then some (l.take n) else none

theorem difference?_eq {m n : Nat} (h : n ≤ m) : difference? m n = some (m - n) :=
  if_pos h

theorem cut?_eq {α : Type} {l : List α} {n : Nat} (h : n ≤ l.length) : cut? l n = some (l.take n) :=
  if_pos h

/-- Steps that never fail amount to a map. -/
theorem mapM_eq_some {α β : Type} {f : α → Option β} {g : α → β} {l : List α}
    (h : ∀ a ∈ l, f a = some (g a)) : l.mapM f = some (l.map g) := by
  induction l with
  | nil => rfl
  | cons a l ih =>
    rw [List.mapM_cons, h a List.mem_cons_self, ih fun b hb => h b (List.mem_cons_of_mem a hb)]
    rfl

namespace History

/-- Record a value; fails if the variable is not where it was registered. -/
def strictRecordValue? (h : History) (name literal : String) : Option History := do
  let v ← (h.register name).1.tracked[(h.register name).2]?
  if v.values.getLast? = some literal then return (h.register name).1
  return (h.register name).1.extend (h.register name).2 v literal

/-- The literal of a variable after some changes, if they speak of it; fails if the last of them
points outside its history. -/
def strictLiteral? (changes : List (Nat × Nat)) (v : Variable) (id : Nat) :
    Option (Option (String × String)) :=
  match lastLength? changes id with
  | none => some none
  | some length => do
    let literal ← v.values[← difference? length 1]?
    return some (v.name, literal)

/-- The literals after so many changes; fails if there are fewer, if one is of no variable, or if
one points outside the history of its variable. -/
def strictValuesAt? (h : History) (n : Nat) : Option (List (String × String)) := do
  let changes ← cut? h.changes n
  guard (∀ c ∈ changes, c.1 < h.tracked.length)
  let found ← h.tracked.zipIdx.mapM fun (v, id) => strictLiteral? changes v id
  return found.reduceOption

/-- The active assets after so many of their sets; fails if there are fewer. -/
def strictAssetsAt? (h : History) (n : Nat) : Option (List String) := do
  if n = 0 then return []
  h.assets[← difference? n 1]?

/-- Forget what was recorded after a moment; fails if some log is shorter than it is cut to. -/
def strictTruncate? (h : History) (s : Snapshot) : Option History := do
  let queue ← cut? h.queue s.queue
  let assets ← cut? h.assets s.assets
  let changes ← cut? h.changes s.changes
  guard (∀ c ∈ changes, c.1 < h.tracked.length)
  let tracked ← h.tracked.zipIdx.mapM fun (v, id) => do
    return { v with values := ← cut? v.values (greatestLength changes id) }
  return { queue, assets, tracked, changes }

end History

namespace Session

/-- Record the values that changed, in the order of their nouns. -/
def strictRecordValues? (h : History) : List (String × Value) → Option History
  | [] => some h
  | (noun, v) :: rest =>
    if v.dirty then do strictRecordValues? (← h.strictRecordValue? noun v.literal) rest
    else strictRecordValues? h rest

/-- Take a snapshot; fails if the values cannot be recorded, or if there is no later snapshot to
move to. -/
def strictCreateSnapshot? (s : Session) : Option Session := do
  if s.isAtTip then
    let history ← strictRecordValues?
      ((s.history.recordAction (s.pending.getD "")).recordAssets s.activeAssets).1 s.values.entries
    return { s with
      values := s.values.mapValues .clearDirty
      history
      snapshots := s.snapshots ++ [history.tip]
      current := ← difference? (s.snapshots ++ [history.tip]).length 1
      pending := none }
  else
    let _ ← s.snapshots[s.current + 1]?
    return { s with
      values := s.values.mapValues .clearDirty
      current := s.current + 1
      pending := none }

/-- Take values and assets from a snapshot; fails if there is none, or if the logs lack what it
speaks of. -/
def strictRestore? (s : Session) (index : Nat) : Option Session := do
  let point ← s.snapshots[index]?
  let literals ← s.history.strictValuesAt? point.changes
  let assets ← s.history.strictAssetsAt? point.assets
  return { s with
    values := .ofList (literals.map fun (noun, literal) => (noun, Value.ofLiteral literal))
    assets := .ofList (assets.map fun asset => (asset, ()))
    pending := none }

/-- Go to a snapshot, unless this is refused. -/
def strictLoadSnapshot? (s : Session) (index : Nat) : Option Session :=
  if index = 0 ∨ s.snapshots.length ≤ index then some s
  else (s.strictRestore? index).map fun t => { t with current := index }

/-- Step back, unless this is refused. -/
def strictUndo? (s : Session) : Option Session :=
  if s.current = 0 then some s
  else if s.current = 1 then
    some { s with values := .empty, assets := .empty, pending := none, current := 0 }
  else do s.strictLoadSnapshot? (← difference? s.current 1)

/-- Discard what comes after the snapshot at hand; fails if it is none, or if the logs lack what it
speaks of. -/
def strictTrim? (s : Session) : Option Session := do
  if s.isAtTip then return s
  let point ← s.snapshots[s.current]?
  let later ← difference? s.snapshots.length s.current
  let _ ← difference? later 1
  return { s with
    snapshots := ← cut? s.snapshots (s.current + 1)
    history := ← s.history.strictTruncate? point
    bookmarks := s.bookmarks.filterKeys fun queue => queue < point.queue }

/-- Put a bookmark on the action that led to the snapshot at hand, if there is one; fails if there
is no snapshot, or no such action in the queue. -/
def strictAddBookmark? (s : Session) (description : Option String) : Option Session := do
  let point ← s.snapshots[s.current]?
  if point.queue = 0 then return s
  s.addBookmarkAt? (← difference? point.queue 1) description

/-- The session after an operation that fails at a bad lookup. The operations that look nothing up
are as they were. -/
def strict? (s : Session) : Operation → Option Session
  | .createSnapshot => s.strictCreateSnapshot?
  | .loadSnapshot index => s.strictLoadSnapshot? index
  | .undo => s.strictUndo?
  | .redo => s.strictLoadSnapshot? (s.current + 1)
  | .trim => s.strictTrim?
  | .addBookmark description => s.strictAddBookmark? description
  | op => some (s.apply op)

end Session

/-! ### Logs that fit together have all that is looked up -/

namespace History

variable {h : History}

/-- Registering leaves a variable at the position that it answers with. -/
theorem strictRecordValue?_eq (h : History) (name literal : String) :
    h.strictRecordValue? name literal = some (h.recordValue name literal).1 := by
  obtain ⟨v, hv⟩ : ∃ v, (h.register name).1.tracked[(h.register name).2]? = some v := by
    rcases h.register_cases name with ⟨v, hv, -, heq⟩ | ⟨-, hid, heq⟩
    · exact ⟨v, by rw [heq]; exact hv⟩
    · exact ⟨{ name }, by rw [heq, hid]; exact List.getElem?_concat_length⟩
  rw [recordValue_eq hv, strictRecordValue?, hv, Option.bind_eq_bind, Option.bind_some]
  split <;> rfl

/-- The changes speak of literals that are there. -/
theorem Consistent.strictLiteral?_eq (hc : h.Consistent) {id : Nat} {v : Variable}
    (hv : h.tracked[id]? = some v) (n : Nat) :
    strictLiteral? (h.changes.take n) v id =
      some ((lastLength? (h.changes.take n) id).bind fun length =>
        (v.values[length - 1]?).map fun literal => (v.name, literal)) := by
  rw [strictLiteral?]
  cases hlast : lastLength? (h.changes.take n) id with
  | none => rfl
  | some length =>
    rw [lastLength?_eq] at hlast
    obtain ⟨u, hu, hpos, hle⟩ :=
      hc.change_in_range (List.mem_of_mem_take (mem_lengths.mp (List.mem_of_getLast? hlast)))
    obtain rfl : v = u := by
      rw [hv] at hu
      exact Option.some.inj hu
    have hget : v.values[length - 1]? = some v.values[length - 1] :=
      List.getElem?_eq_getElem (by omega)
    simp [difference?_eq hpos, hget]

/-- Every change is one of a variable, and its literal is there. -/
theorem Consistent.strictValuesAt?_eq (hc : h.Consistent) {n : Nat} (hn : n ≤ h.changes.length) :
    h.strictValuesAt? n = some (h.valuesAt n) := by
  have htracked : ∀ c ∈ h.changes.take n, c.1 < h.tracked.length := fun c hmem =>
    hc.change_tracked c (List.mem_of_mem_take hmem)
  have hfound := mapM_eq_some (f := fun e : Variable × Nat =>
      strictLiteral? (h.changes.take n) e.1 e.2) (l := h.tracked.zipIdx) fun e he =>
    hc.strictLiteral?_eq (List.mk_mem_zipIdx_iff_getElem?.mp he) n
  rw [strictValuesAt?, cut?_eq hn]
  simp only [Option.bind_eq_bind, Option.bind_some, guard, if_pos htracked, hfound,
    List.reduceOption, List.filterMap_map]
  rfl

/-- So many sets of assets are in the log. -/
theorem strictAssetsAt?_eq {n : Nat} (hn : n ≤ h.assets.length) :
    h.strictAssetsAt? n = some (h.assetsAt n) := by
  rw [strictAssetsAt?, assetsAt]
  split
  · rfl
  · rw [difference?_eq (by omega), List.getD_eq_getElem?_getD, Option.bind_eq_bind,
      Option.bind_some, List.getElem?_eq_getElem (by omega), Option.getD_some]

/-- No log is shorter than a snapshot within it says, and no history is shorter than the changes
say. -/
theorem Consistent.strictTruncate?_eq (hc : h.Consistent) {s : Snapshot} (hs : h.tip.follows s) :
    h.strictTruncate? s = some (h.truncate s) := by
  rw [Session.follows_iff] at hs
  obtain ⟨hqueue, hassets, hchanges⟩ := hs
  have htracked : ∀ c ∈ h.changes.take s.changes, c.1 < h.tracked.length := fun c hmem =>
    hc.change_tracked c (List.mem_of_mem_take hmem)
  have hcut := mapM_eq_some (l := h.tracked.zipIdx)
      (f := fun e : Variable × Nat =>
        (cut? e.1.values (greatestLength (h.changes.take s.changes) e.2)).bind fun values =>
          some { e.1 with values })
      (g := fun e : Variable × Nat =>
        { e.1 with values := e.1.values.take (greatestLength (h.changes.take s.changes) e.2) })
      fun e he => by
    obtain ⟨k, hk, hlengths⟩ := hc.lengths_take (List.mk_mem_zipIdx_iff_getElem?.mp he) s.changes
    rw [greatestLength_eq, hlengths, foldl_max_range', cut?_eq hk, Option.bind_some]
  rw [strictTruncate?, cut?_eq hqueue, cut?_eq hassets, cut?_eq hchanges]
  simp only [Option.bind_eq_bind, Option.bind_some, guard, if_pos htracked]
  refine (congrArg (Option.bind · _) hcut).trans ?_
  rw [History.truncate, List.mapIdx_eq_zipIdx_map]
  rfl

end History

namespace Session

variable {s : Session}

/-- Recording some values fails at none of them. -/
theorem strictRecordValues?_eq (h : History) (es : List (String × Value)) :
    strictRecordValues? h es = some (recordValues h es) := by
  induction es generalizing h with
  | nil => rfl
  | cons e es ih =>
    obtain ⟨noun, v⟩ := e
    rw [strictRecordValues?, recordValues_cons, ← ih]
    split
    · rw [History.strictRecordValue?_eq]
      rfl
    · rfl

/-- Behind the tip there is a later snapshot to move to. -/
theorem Consistent.strictCreateSnapshot?_eq (hc : s.Consistent) :
    s.strictCreateSnapshot? = some s.createSnapshot := by
  rw [strictCreateSnapshot?]
  split
  next htip =>
    rw [strictRecordValues?_eq, createSnapshot_of_isAtTip htip, Option.bind_eq_bind,
      Option.bind_some, difference?_eq (by simp), List.length_append, List.length_singleton]
    rfl
  next htip =>
    have hlt := hc.current_lt
    have hnext : s.current + 1 < s.snapshots.length := by
      rw [isAtTip_iff] at htip
      omega
    rw [createSnapshot_of_not_isAtTip htip, getElem?_snapshots hnext]
    rfl

/-- A snapshot that is not refused is there, and speaks of no more than there is in the logs. -/
theorem Consistent.strictLoadSnapshot?_eq (hc : s.Consistent) (index : Nat) :
    s.strictLoadSnapshot? index = some ((s.loadSnapshot? index).getD s) := by
  rw [strictLoadSnapshot?, Session.loadSnapshot?]
  split
  · rfl
  next hindex =>
    have hpoint : s.snapshots[index]? = some (s.snapshot index) := getElem?_snapshots (by omega)
    have hfollows := follows_iff.mp (hc.tip_follows (List.mem_of_getElem? hpoint))
    rw [strictRestore?, hpoint, Option.bind_eq_bind, Option.bind_some,
      hc.history.strictValuesAt?_eq hfollows.2.2, Option.bind_eq_bind, Option.bind_some,
      History.strictAssetsAt?_eq hfollows.2.1]
    rfl

theorem Consistent.strictUndo?_eq (hc : s.Consistent) :
    s.strictUndo? = some (s.undo?.getD s) := by
  rw [strictUndo?, Session.undo?]
  rcases hcurrent : s.current with _ | _ | n
  · rfl
  · rfl
  · rw [if_neg (by omega), if_neg (by omega), difference?_eq (by omega)]
    exact hc.strictLoadSnapshot?_eq (n + 1)

/-- The snapshot at hand is there, and the logs reach up to it. -/
theorem Consistent.strictTrim?_eq (hc : s.Consistent) : s.strictTrim? = some s.trim := by
  rw [strictTrim?]
  split
  next htip =>
    rw [Session.trim, if_pos htip]
    rfl
  next htip =>
    have hlt := hc.current_lt
    have hpoint := getElem?_snapshots hlt
    rw [trim_of_not_isAtTip htip, hpoint, difference?_eq (by omega), Option.bind_eq_bind,
      Option.bind_some, Option.bind_eq_bind, Option.bind_some, difference?_eq (by omega),
      cut?_eq (by omega),
      hc.history.strictTruncate?_eq (hc.tip_follows (List.mem_of_getElem? hpoint))]
    rfl

/-- The action before the snapshot at hand is in the queue, if there is one. -/
theorem Consistent.strictAddBookmark?_eq (hc : s.Consistent) (description : Option String) :
    s.strictAddBookmark? description = some (s.apply (.addBookmark description)) := by
  have hpoint := getElem?_snapshots hc.current_lt
  have hfollows := follows_iff.mp (hc.tip_follows (List.mem_of_getElem? hpoint))
  rw [strictAddBookmark?, hpoint, Session.apply, addBookmark?_eq, Option.bind_eq_bind,
    Option.bind_some]
  split
  · rfl
  next hqueue =>
    have hentry : (s.snapshot s.current).queue - 1 < s.history.queue.length := by
      have hle := hfollows.1
      simp only [History.tip] at hle
      omega
    rw [difference?_eq (by omega), Option.bind_eq_bind, Option.bind_some, Session.addBookmarkAt?,
      List.getElem?_eq_getElem hentry]
    rfl

/-- In a consistent session no operation fails at a lookup, a difference or a cut. -/
theorem Consistent.strict?_eq (hc : s.Consistent) (op : Operation) :
    s.strict? op = some (s.apply op) := by
  cases op with
  | modifyValue | setValue | setAsset | setAction | addBookmarkAt | rename | reset => rfl
  | createSnapshot => exact hc.strictCreateSnapshot?_eq
  | loadSnapshot index => exact hc.strictLoadSnapshot?_eq index
  | undo => exact hc.strictUndo?_eq
  | redo => exact hc.strictLoadSnapshot?_eq (s.current + 1)
  | trim => exact hc.strictTrim?_eq
  | addBookmark description => exact hc.strictAddBookmark?_eq description

/-- The first set of active assets in the log is not empty. -/
theorem Consistent.head?_assets (hc : s.Consistent) : s.history.assets.head? ≠ some [] := by
  intro hhead
  obtain ⟨sets, hsets⟩ := List.head?_eq_some_iff.mp hhead
  have hchain := hc.history.assets_chain
  rw [hsets, List.isChain_cons_cons] at hchain
  exact hchain.1 rfl

/-- Whatever is done to a session from the start of the story, in whatever order, its parts fit
together, each bookmark is on an action whose snapshot is found, and no operation that follows
fails at a lookup, a difference or a cut. -/
theorem run_consistent (name : String) (ops : List Operation) :
    (run { name } ops).Consistent ∧
      (run { name } ops).history.assets.head? ≠ some [] ∧
      (∀ queue ∈ (run { name } ops).bookmarks.keys,
        queue < (run { name } ops).history.queue.length ∧
          (run { name } ops).snapshotForQueue? queue = some (queue + 1)) ∧
      ∀ op, (run { name } ops).strict? op = some ((run { name } ops).apply op) := by
  have hc : (run { name } ops).Consistent := (consistent_new name).run ops
  refine ⟨hc, hc.head?_assets, fun queue hqueue => ?_, hc.strict?_eq⟩
  obtain ⟨e, he, rfl⟩ := List.mem_map.mp hqueue
  have hlt := hc.bookmarks_lt e he
  exact ⟨hlt, hc.snapshotForQueue?_eq hlt⟩

end Session

end Gamebook
