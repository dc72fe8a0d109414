import Gamebook.Proofs.Session.Invariant
import Gamebook.Proofs.Session.Lines
import Gamebook.Proofs.Session.Reading

/-!
# Files that are read back

Whether the file of a session can be read back hangs on a few plain facts about what stands in it
(`Session.Legible`), and on one more: each change must point into the history of its variable
(`History.Resolves`). With that, reading gives the session at its newest snapshot
(`Legible.ofLines_fileLines`), and without it the file is refused (`Legible.resolves_of_ofLines`).
It does not matter how the session came about.
-/

namespace Gamebook

namespace History

/-! ### Putting logs together -/

theorem modify_length {α : Type} (l : List α) (a : α) (f : α → α) :
    (l ++ [a]).modify l.length f = l ++ [f a] := by
  induction l with
  | nil => rfl
  | cons b l ih => rw [List.length_cons, List.cons_append, List.modify_succ_cons, ih]; rfl

/-- A variable with a new name is put behind the others, with its history. -/
theorem putVariable_eq {h : History} {v : Variable} (hfresh : ∀ w ∈ h.tracked, w.name ≠ v.name) :
    h.putVariable v = { h with tracked := h.tracked ++ [v] } := by
  rcases h.register_cases v.name with ⟨w, hw, hname, -⟩ | ⟨-, hid, heq⟩
  · exact absurd hname (hfresh w (List.mem_of_getElem? hw))
  · have hpair : h.register v.name =
        ({ h with tracked := h.tracked ++ [{ name := v.name }] }, h.tracked.length) :=
      Prod.ext heq hid
    rw [putVariable, hpair]
    simp only [modify_length]

/-- Logs whose variables have different names are put together as they are. -/
theorem ofLogs_eq {h : History} (hnd : (h.tracked.map (·.name)).Nodup) :
    ofLogs h.queue h.assets h.tracked h.changes = h := by
  have hfold : ∀ (vs : List Variable) (g : History),
      ((g.tracked ++ vs).map (·.name)).Nodup →
        vs.foldl putVariable g = { g with tracked := g.tracked ++ vs } := by
    intro vs
    induction vs with
    | nil => simp
    | cons v vs ih =>
      intro g hg
      have hfresh : ∀ w ∈ g.tracked, w.name ≠ v.name := by
        intro w hw heq
        rw [List.map_append, List.nodup_append] at hg
        exact hg.2.2 w.name (List.mem_map_of_mem hw) v.name (by simp) heq
      rw [List.foldl_cons, putVariable_eq hfresh, ih _ (by simpa using hg)]
      simp
  rw [ofLogs, hfold _ _ (by simpa using hnd)]
  rfl

/-! ### Changes that point somewhere -/

/-- A change points into the history of its variable. -/
def Points (tracked : List Variable) (c : Nat × Nat) : Prop :=
  ∃ v ∈ tracked[c.1]?, 1 ≤ c.2 ∧ c.2 ≤ v.values.length

instance (tracked : List Variable) (c : Nat × Nat) : Decidable (Points tracked c) :=
  inferInstanceAs (Decidable (∃ v ∈ tracked[c.1]?, 1 ≤ c.2 ∧ c.2 ≤ v.values.length))

/-- Every change points into the history of its variable. -/
def Resolves (h : History) : Prop :=
  ∀ c ∈ h.changes, Points h.tracked c

instance (h : History) : Decidable h.Resolves :=
  inferInstanceAs (Decidable (∀ c ∈ h.changes, Points h.tracked c))

/-- The changes of a consistent log point somewhere. -/
theorem Consistent.resolves {h : History} (hc : h.Consistent) : h.Resolves := fun _ hmem =>
  hc.change_in_range hmem

end History

namespace Session

variable {s t : Session}

/-- The texts in a session are kept on lines of their own, and where an empty line ends a row, none
of the row is empty. -/
structure Lined (s : Session) : Prop where
  name : IsLine s.name
  queue : ∀ entry ∈ s.history.queue, IsLine entry
  assets : ∀ set ∈ s.history.assets, ∀ asset ∈ set, IsLine asset ∧ asset ≠ ""
  tracked : ∀ v ∈ s.history.tracked,
    IsLine v.name ∧ ∀ literal ∈ v.values, IsLine literal ∧ literal ≠ ""
  bookmarks : ∀ e ∈ s.bookmarks.entries, IsLine e.2

/-- What has to be known of a session for its file to be read line by line as it was written. -/
structure Legible (s : Session) : Prop extends Lined s where
  nodup_names : (s.history.tracked.map (·.name)).Nodup
  /-- The first snapshot is the start of the story. -/
  first : s.snapshots[0]? = some .start
  /-- No log is shorter at a later snapshot. -/
  ordered : s.snapshots.Pairwise fun p q : Snapshot => q.follows p = true
  /-- No snapshot speaks of more than there is in the logs. -/
  within : ∀ p ∈ s.snapshots, s.history.tip.follows p
  bookmarks_le : ∀ e ∈ s.bookmarks.entries, e.1 ≤ Decimal.maxIndex
  /-- No count is greater than a number can say. -/
  counts_le : s.history.queue.length ≤ Decimal.maxIndex ∧
    s.history.assets.length ≤ Decimal.maxIndex ∧ s.history.tracked.length ≤ Decimal.maxIndex
  changes_le : ∀ c ∈ s.history.changes, c.1 ≤ Decimal.maxIndex ∧ c.2 ≤ Decimal.maxIndex
  snapshots_le : ∀ p ∈ s.snapshots, p.queue ≤ Decimal.maxIndex ∧ p.assets ≤ Decimal.maxIndex ∧
    p.changes ≤ Decimal.maxIndex

/-! ### The lines of a file -/

/-- A numeral is kept on a line of its own. -/
theorem isLine_text (n : Nat) : IsLine (Decimal.text n) := by
  refine isLine_of_unbroken fun c hc => ?_
  have hdigit := Decimal.isDigit_of_mem_text hc
  constructor <;> rintro rfl <;> exact absurd hdigit (by decide)

theorem digits_comma {s t : String} (hs : ∀ c ∈ s.toList, c.isDigit ∨ c = ',')
    (ht : ∀ c ∈ t.toList, c.isDigit ∨ c = ',') :
    ∀ c ∈ (s ++ "," ++ t).toList, c.isDigit ∨ c = ',' := by
  intro c hc
  simp only [String.toList_append, List.mem_append] at hc
  rcases hc with (hc | hc) | hc
  · exact hs c hc
  · exact .inr (by simpa using hc)
  · exact ht c hc

/-- Every line of the file is kept. -/
theorem Lined.isLine_fileLines (hl : s.Lined) : ∀ line ∈ s.fileLines, IsLine line := by
  have hnumber : ∀ n, ∀ c ∈ (Decimal.text n).toList, c.isDigit ∨ c = ',' := fun n c hc =>
    .inl (Decimal.isDigit_of_mem_text hc)
  have hcommas : ∀ {t : String}, (∀ c ∈ t.toList, c.isDigit ∨ c = ',') → IsLine t := by
    intro t ht
    refine isLine_of_unbroken fun c hc => ?_
    rcases ht c hc with hdigit | rfl
    · constructor <;> rintro rfl <;> exact absurd hdigit (by decide)
    · decide
  have hempty : IsLine "" := by decide
  intro line hline
  -- the cases are the parts of the file in their order
  simp only [fileLines, List.cons_append, List.mem_cons, List.mem_append, List.not_mem_nil,
    or_false] at hline
  rcases hline with rfl | rfl |
    ((((((((h | rfl | h) | rfl | h) | h) | rfl) | h) | rfl) | h) | rfl) | rfl
  · exact hl.name
  · exact isLine_text _
  · exact hl.queue line h
  · exact isLine_text _
  · obtain ⟨set, hset, h⟩ := List.mem_flatMap.mp h
    rcases List.mem_append.mp h with h | h
    · exact (hl.assets set hset line h).1
    · rw [List.mem_singleton.mp h]
      exact hempty
  · exact isLine_text _
  · obtain ⟨⟨v, id⟩, he, h⟩ := List.mem_flatMap.mp h
    obtain ⟨hname, hvalues⟩ := hl.tracked v (List.fst_mem_of_mem_zipIdx he)
    rcases List.mem_cons.mp h with rfl | h
    · exact hname
    · rcases List.mem_cons.mp h with rfl | h
      · exact isLine_text _
      · rcases List.mem_append.mp h with h | h
        · exact (hvalues line h).1
        · rw [List.mem_singleton.mp h]
          exact hempty
  · obtain ⟨c, -, rfl⟩ := List.mem_map.mp h
    exact hcommas (digits_comma (hnumber c.1) (hnumber c.2))
  · exact hempty
  · obtain ⟨p, -, rfl⟩ := List.mem_map.mp h
    exact hcommas (digits_comma (digits_comma (hnumber p.queue) (hnumber p.assets))
      (hnumber p.changes))
  · exact hempty
  · obtain ⟨e, he, h⟩ := List.mem_flatMap.mp h
    rcases List.mem_cons.mp h with rfl | h
    · exact isLine_text _
    · rw [List.mem_singleton.mp h]
      exact hl.bookmarks e he
  · exact hempty
  · decide

/-- The lines of a file as they are read: those up to the change log, the change log, and those
behind it. -/
theorem fileLines_eq (s : Session) : s.fileLines =
    ([s.name] ++ ([Decimal.text s.history.queue.length] ++ (s.history.queue ++
      ([Decimal.text s.history.assets.length] ++
        (s.history.assets.flatMap (fun set => set ++ [""]) ++
          ([Decimal.text s.history.tracked.length] ++
            (s.history.tracked.zipIdx.flatMap (fun e => variableLines e.1 e.2) ++
              ((s.history.changes.map
                  (fun c => s!"{Decimal.text c.1},{Decimal.text c.2}") ++ [""]) ++
                ([] ++ (((s.snapshots.drop 1).map snapshotLine ++ [""]) ++
                  ([] ++ (((s.bookmarks.entries.flatMap fun (queue, text) =>
                      [Decimal.text queue, text]) ++ [""]) ++
                    [endMarker])))))))))))) := by
  simp [fileLines]

/-! ### Reading the parts -/

/-- There is a line for each action. -/
theorem reads_queue (queue : List String) :
    Reads (readMany (fun _ => nextLine .queueEntry) 0 queue.length) queue queue := by
  have hread := @reads_readMany _ (fun _ => nextLine .queueEntry) (fun line _ => [line]) queue 0
    fun e _ => reads_nextLine .queueEntry e.1
  rwa [flatMap_zipIdx queue 0 fun line => [line], List.flatMap_singleton'] at hread

/-- There is a block of lines for each set of assets, which may be empty. -/
theorem reads_assets {sets : List (List String)} (hsets : ∀ set ∈ sets, ∀ asset ∈ set, asset ≠ "") :
    Reads (readMany (fun _ => untilBlank .assetName) 0 sets.length)
      (sets.flatMap fun set => set ++ [""]) sets := by
  have hread := @reads_readMany _ (fun _ => untilBlank .assetName) (fun set _ => set ++ [""]) sets 0
    fun e he => reads_untilBlank .assetName (hsets e.1 (List.fst_mem_of_mem_zipIdx he))
  rwa [flatMap_zipIdx sets 0 fun set => set ++ [""]] at hread

/-- Each variable is read at its own position. -/
theorem Legible.reads_tracked (hl : s.Legible) :
    Reads (readMany readVariable 0 s.history.tracked.length)
      (s.history.tracked.zipIdx.flatMap fun e => variableLines e.1 e.2) s.history.tracked := by
  refine reads_readMany fun e he => ?_
  have hget := List.mk_mem_zipIdx_iff_getElem?.mp he
  have hlt := (List.getElem?_eq_some_iff.mp hget).1
  exact reads_readVariable (hlt.le.trans hl.counts_le.2.2) fun literal hliteral =>
    ((hl.tracked e.1 (List.mem_of_getElem? hget)).2 literal hliteral).2

/-- The lines for some changes. -/
def changeLines (changes : List (Nat × Nat)) : List String :=
  changes.map fun c => s!"{Decimal.text c.1},{Decimal.text c.2}"

/-- The pairs of the change log are taken up to a blank line, before any of them is judged. -/
theorem reads_changeLines (changes : List (Nat × Nat)) :
    Reads (untilBlank .changePair) (changeLines changes ++ [""]) (changeLines changes) := by
  refine reads_untilBlank .changePair fun line hline => ?_
  obtain ⟨c, -, rfl⟩ := List.mem_map.mp hline
  exact comma_ne_empty _ _

/-- A pair is accepted if it points into the history of its variable. -/
theorem Legible.reads_changes (hl : s.Legible) (hr : s.history.Resolves) :
    Reads ((changeLines s.history.changes).mapM (readChange s.history.tracked)) []
      s.history.changes := by
  refine reads_mapM fun c hmem => ?_
  obtain ⟨v, hv, hpos, hle⟩ := hr c hmem
  obtain ⟨hid, hlength⟩ := hl.changes_le c hmem
  exact reads_readChange hv hpos hle hid hlength

/-- The first snapshot is not written, as it is the same in every session. -/
theorem Legible.snapshots_eq (hl : s.Legible) : s.snapshots = .start :: s.snapshots.drop 1 := by
  have hpos : 0 < s.snapshots.length := (List.getElem?_eq_some_iff.mp hl.first).1
  obtain ⟨p, ps, heq⟩ := List.exists_cons_of_length_pos hpos
  have hfirst := hl.first
  rw [heq, List.getElem?_cons_zero] at hfirst
  rw [heq, Option.some.inj hfirst]
  rfl

/-- The triples of the snapshots are taken up to a blank line as well. -/
theorem reads_snapshotLines (ps : List Snapshot) :
    Reads (untilBlank .snapshot) (ps.map snapshotLine ++ [""]) (ps.map snapshotLine) := by
  refine reads_untilBlank .snapshot fun line hline => ?_
  obtain ⟨p, -, rfl⟩ := List.mem_map.mp hline
  exact comma_ne_empty _ _

/-- The triples are accepted, as they are in order and speak of no more than there is. -/
theorem Legible.reads_snapshots (hl : s.Legible) :
    Reads (readSnapshots s.history.tip .start ((s.snapshots.drop 1).map snapshotLine)) []
      (s.snapshots.drop 1) := by
  refine reads_readSnapshots ?_ (fun p hp => hl.within p (List.mem_of_mem_drop hp))
    fun p hp => hl.snapshots_le p (List.mem_of_mem_drop hp)
  rw [← hl.snapshots_eq]
  exact hl.ordered

/-! ### Reading the whole -/

/-- The session at its newest snapshot, as it is restored from there. -/
def reopened (s : Session) : Session :=
  { s.restore (s.snapshots.length - 1) with current := s.snapshots.length - 1 }

/-- What is put together of all that was read is the session at its newest snapshot. -/
theorem Legible.ofLogs_eq (hl : s.Legible) :
    ofLogs s.name (.ofLogs s.history.queue s.history.assets s.history.tracked s.history.changes)
      (s.snapshots.drop 1) s.bookmarks = s.reopened := by
  rw [History.ofLogs_eq hl.nodup_names, ofLogs, ← hl.snapshots_eq, List.length_drop]
  rfl

/-- The lines of a session whose changes all point somewhere are read as the session at its newest
snapshot. -/
theorem Legible.ofLines_fileLines (hl : s.Legible) (hr : s.history.Resolves) :
    ofLines (s.fileLines.map some) = .ok s.reopened := by
  have hread : Reads readSession s.fileLines s.reopened := by
    rw [s.fileLines_eq]
    refine (reads_nextLine .sessionName s.name).bind ?_
    refine (reads_numberLine .queueCount hl.counts_le.1).bind ?_
    refine (reads_queue s.history.queue).bind ?_
    refine (reads_numberLine .assetCount hl.counts_le.2.1).bind ?_
    refine (reads_assets fun set hset asset hasset => (hl.assets set hset asset hasset).2).bind ?_
    refine (reads_numberLine .variableCount hl.counts_le.2.2).bind ?_
    refine hl.reads_tracked.bind ?_
    refine (reads_changeLines s.history.changes).bind ?_
    refine (hl.reads_changes hr).bind ?_
    refine (reads_snapshotLines (s.snapshots.drop 1)).bind ?_
    refine hl.reads_snapshots.bind ?_
    refine (reads_readBookmarks hl.bookmarks_le).bind ?_
    -- the end marker is as it should be, so nothing stops the reading there
    have hend : Reads (nextLine .endMarker >>= fun last => Pure.pure (ofLogs s.name (.ofLogs
        s.history.queue s.history.assets s.history.tracked s.history.changes)
        (s.snapshots.drop 1) s.bookmarks)) [endMarker] s.reopened := by
      rw [hl.ofLogs_eq]
      exact (reads_nextLine .endMarker endMarker).map fun _ => s.reopened
    exact hend
  have hlines := hread [] 0
  rw [List.append_nil] at hlines
  rw [ofLines, hlines]
  rfl

theorem run_bind {α β : Type} (read : Reading α) (next : α → Reading β) (r : Reader) :
    (read >>= next) r = (read r).bind fun p => next p.1 p.2 :=
  rfl

/-- Where reading gets through, it gets through its first part. -/
theorem ok_of_bind {α β : Type} {read : Reading α} {next : α → Reading β} {r : Reader}
    {p : β × Reader} (h : (read >>= next) r = .ok p) :
    ∃ q, read r = .ok q ∧ next q.1 q.2 = .ok p := by
  rw [run_bind] at h
  cases hread : read r with
  | error e => rw [hread] at h; cases h
  | ok q => rw [hread] at h; exact ⟨q, rfl, h⟩

/-- Where reading gets through, its second part gets through what the first one leaves. -/
theorem Reads.of_bind {α β : Type} {read : Reading α} {next : α → Reading β}
    {lines more : List String} {a : α} (hread : Reads read lines a)
    (h : ∃ n p, (read >>= next) ⟨(lines ++ more).map some, n⟩ = .ok p) :
    ∃ n p, next a ⟨more.map some, n⟩ = .ok p := by
  obtain ⟨n, p, h⟩ := h
  rw [List.map_append, run_bind, hread] at h
  exact ⟨n + lines.length, p, h⟩

/-- The line for a change is read only if the change points somewhere. -/
theorem points_of_readChange {tracked : List Variable} {c : Nat × Nat}
    (hfit : c.1 ≤ Decimal.maxIndex ∧ c.2 ≤ Decimal.maxIndex) {r : Reader} {p : (Nat × Nat) × Reader}
    (h : readChange tracked s!"{Decimal.text c.1},{Decimal.text c.2}" r = .ok p) :
    History.Points tracked c := by
  have hsplit : splitComma s!"{Decimal.text c.1},{Decimal.text c.2}" =
      some (Decimal.text c.1, Decimal.text c.2) :=
    splitComma_append fun _ hc => Decimal.isDigit_of_mem_text hc
  have hnumber : ∀ part n, n ≤ Decimal.maxIndex →
      readNumber part (Decimal.text n) = Pure.pure n := by
    intro part n hn
    rw [readNumber, Decimal.toIndex?_trim_text hn]
  rw [readChange, hsplit] at h
  simp only [hnumber _ _ hfit.1, hnumber _ _ hfit.2, pure_bind] at h
  split at h
  next hinside =>
    obtain ⟨v, hv, hlength⟩ := (Option.any_eq_true _ _).mp hinside
    rw [Bool.and_eq_true, decide_eq_true_eq, decide_eq_true_eq] at hlength
    exact ⟨v, hv, hlength⟩
  next => cases h

/-- The lines of changes are read only if every change points somewhere. -/
theorem points_of_changeLines {tracked : List Variable} {changes : List (Nat × Nat)}
    (hfit : ∀ c ∈ changes, c.1 ≤ Decimal.maxIndex ∧ c.2 ≤ Decimal.maxIndex) {r : Reader}
    {p : List (Nat × Nat) × Reader}
    (h : ((changeLines changes).mapM (readChange tracked)) r = .ok p) :
    ∀ c ∈ changes, History.Points tracked c := by
  induction changes generalizing r p with
  | nil => simp
  | cons c changes ih =>
    rw [changeLines, List.map_cons, List.mapM_cons] at h
    obtain ⟨q, hfirst, h⟩ := ok_of_bind h
    obtain ⟨q', hrest, -⟩ := ok_of_bind h
    intro d hd
    rcases List.mem_cons.mp hd with rfl | hd
    · exact points_of_readChange (hfit d List.mem_cons_self) hfirst
    · exact ih (fun e he => hfit e (List.mem_cons_of_mem c he)) hrest d hd

/-- A file is not read unless all changes in it point somewhere. -/
theorem Legible.resolves_of_ofLines (hl : s.Legible)
    (h : ofLines (s.fileLines.map some) = .ok t) : s.history.Resolves := by
  have hread : ∃ n p, readSession ⟨s.fileLines.map some, n⟩ = .ok p := by
    rw [ofLines] at h
    cases hrun : readSession ⟨s.fileLines.map some, 0⟩ with
    | error e => rw [hrun] at h; cases h
    | ok p => exact ⟨0, p, hrun⟩
  rw [s.fileLines_eq] at hread
  -- what stands in front of the changes is read whatever they are, so it can be taken off
  have hread := (reads_nextLine .sessionName s.name).of_bind hread
  have hread := (reads_numberLine .queueCount hl.counts_le.1).of_bind hread
  have hread := (reads_queue s.history.queue).of_bind hread
  have hread := (reads_numberLine .assetCount hl.counts_le.2.1).of_bind hread
  have hread := (reads_assets fun set hset asset hasset =>
    (hl.assets set hset asset hasset).2).of_bind hread
  have hread := (reads_numberLine .variableCount hl.counts_le.2.2).of_bind hread
  have hread := hl.reads_tracked.of_bind hread
  obtain ⟨n, p, hread⟩ := (reads_changeLines s.history.changes).of_bind hread
  obtain ⟨q, hchanges, -⟩ := ok_of_bind hread
  exact points_of_changeLines hl.changes_le hchanges

end Session

end Gamebook
