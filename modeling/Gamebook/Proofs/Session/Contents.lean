import Gamebook.Proofs.Session.Legible

/-!
# What an accepted file says

Reading checks each part of a file by itself and puts the parts together at the end. `Contents` is
what the parts say before that, and reading a session is reading its contents
(`Session.ofFile_eq`). Whatever the file, accepted contents are sound: texts are lines, numbers fit,
each change points into the history that the file gives at its position, and the snapshots are in
order and within the logs (`sound_of_contents`).

This is proved part by part. `Session.Yields` says what is known of anything that a part of the
reading answers with, if all lines are kept.
-/

namespace Gamebook.Session

variable {α β : Type}

/-! ### Contents -/

/-- What the parts of a file say. -/
structure Contents where
  name : String
  queue : List String
  assets : List (List String)
  /-- The variables at their positions; a name may stand there more than once. -/
  tracked : List Variable
  changes : List (Nat × Nat)
  /-- The snapshots behind the start of the story. -/
  snapshots : List Snapshot
  bookmarks : SortedMap Nat String

/-- The lengths of the logs. -/
def Contents.tip (c : Contents) : Snapshot :=
  ⟨c.queue.length, c.assets.length, c.changes.length⟩

/-- The logs put together. -/
def Contents.history (c : Contents) : History :=
  .ofLogs c.queue c.assets c.tracked c.changes

/-- The session put together. -/
def Contents.session (c : Contents) : Session :=
  .ofLogs c.name c.history c.snapshots c.bookmarks

/-- Read the contents of a file. -/
def readContents : Reading Contents := do
  let name ← nextLine .sessionName
  let queue ← readMany (fun _ => nextLine .queueEntry) 0 (← numberLine .queueCount)
  let assets ← readMany (fun _ => untilBlank .assetName) 0 (← numberLine .assetCount)
  let tracked ← readMany readVariable 0 (← numberLine .variableCount)
  let changes ← (← untilBlank .changePair).mapM (readChange tracked)
  let tip : Snapshot := ⟨queue.length, assets.length, changes.length⟩
  let snapshots ← readSnapshots tip .start (← untilBlank .snapshot)
  let bookmarks ← readBookmarks
  let last ← nextLine .endMarker
  if last ≠ endMarker then stop (.badEnd last)
  return { name, queue, assets, tracked, changes, snapshots, bookmarks }

/-- The contents of a file. -/
def contents (bytes : List UInt8) : Except FileError Contents :=
  (readContents ⟨(splitLines (· == 10) bytes).map lineText?, 0⟩).map (·.1)

/-- Reading a session stops where reading its contents stops, and what it puts together cannot
fail. -/
theorem readSession_eq : readSession = readContents >>= fun c => Pure.pure c.session := by
  have hend : ∀ (p : Prop) [Decidable p] (m : Reading Contents) (c : Contents),
      (if p then m else Pure.pure c) >>= (fun c => (Pure.pure c.session : Reading Session)) =
        if p then m >>= fun c => Pure.pure c.session else Pure.pure c.session := by
    intro p _ m c
    split
    · rfl
    · rw [pure_bind]
  simp only [readSession, readContents, bind_assoc, hend, pure_bind]
  rfl

/-- Reading a session is reading the contents of its file and putting them together. -/
theorem ofFile_eq (bytes : List UInt8) : ofFile bytes = (contents bytes).map Contents.session := by
  rw [ofFile, ofLines, contents, readSession_eq, run_bind]
  cases readContents ⟨(splitLines (· == 10) bytes).map lineText?, 0⟩ <;> rfl

/-! ### What reading yields -/

/-- The lines to come are kept when they are written and read again. -/
def Reader.Kept (r : Reader) : Prop :=
  ∀ line, some line ∈ r.rest → IsLine line

theorem Reader.Kept.tail {line : Option String} {rest : List (Option String)} {n m : Nat}
    (h : Reader.Kept ⟨line :: rest, n⟩) : Reader.Kept ⟨rest, m⟩ := fun text htext =>
  h text (List.mem_cons_of_mem line htext)

/-- What reading answers with is known to be of some kind, if the lines it reads are kept. -/
def Yields (read : Reading α) (P : α → Prop) : Prop :=
  ∀ r a r', r.Kept → read r = .ok (a, r') → P a ∧ r'.Kept

namespace Yields

variable {P : α → Prop} {Q : β → Prop} {read : Reading α}

theorem pure {a : α} (ha : P a) : Yields (Pure.pure a) P := by
  intro r b r' hr h
  cases h
  exact ⟨ha, hr⟩

/-- What follows is read with what is known of the first answer. -/
theorem bind {next : α → Reading β} (hread : Yields read P) (hnext : ∀ a, P a → Yields (next a) Q) :
    Yields (read >>= next) Q := by
  intro r b r' hr h
  obtain ⟨⟨a, r₁⟩, hfirst, hsecond⟩ := ok_of_bind h
  obtain ⟨ha, hr₁⟩ := hread r a r₁ hr hfirst
  exact hnext a ha r₁ b r' hr₁ hsecond

/-- Where reading stops it answers with nothing. -/
theorem stop (fault : LayoutFault) : Yields (stop fault) P := by
  intro r a r' _ h
  cases h

end Yields

/-- A line that is taken is one of those that are kept. -/
theorem yields_nextLine (part : FilePart) : Yields (nextLine part) IsLine := by
  rintro ⟨rest, n⟩ a r' hr h
  match rest, h with
  | some line :: rest, h =>
    cases h
    exact ⟨hr a List.mem_cons_self, hr.tail⟩

theorem le_of_toIndex? {cs : List Char} {n : Nat} (h : Decimal.toIndex? cs = some n) :
    n ≤ Decimal.maxIndex := by
  unfold Decimal.toIndex? at h
  obtain ⟨m, -, hm⟩ := Option.bind_eq_some_iff.mp h
  split at hm
  next hle => exact Option.some.inj hm ▸ hle
  next => cases hm

/-- A number that is accepted is not greater than a number can say. -/
theorem yields_readNumber (part : FilePart) (text : String) :
    Yields (readNumber part text) (· ≤ Decimal.maxIndex) := by
  rw [readNumber]
  split
  next n hn => exact .pure (le_of_toIndex? hn)
  next => exact .stop _

theorem yields_numberLine (part : FilePart) :
    Yields (numberLine part) (· ≤ Decimal.maxIndex) :=
  (yields_nextLine part).bind fun line _ => yields_readNumber part line

/-- Things that are read one after the other are as many as asked for. -/
theorem yields_readMany {P : α → Prop} {read : Nat → Reading α} (hread : ∀ n, Yields (read n) P)
    (first count : Nat) :
    Yields (readMany read first count) fun as => as.length = count ∧ ∀ a ∈ as, P a := by
  induction count generalizing first with
  | zero => exact .pure ⟨rfl, by simp⟩
  | succ count ih =>
    refine (hread first).bind fun a ha => (ih (first + 1)).bind fun as has => .pure ?_
    refine ⟨by rw [List.length_cons, has.1], fun b hb => ?_⟩
    rcases List.mem_cons.mp hb with rfl | hb
    · exact ha
    · exact has.2 b hb

/-- Lines at hand are read one by one. -/
theorem yields_mapM {γ : Type} {P : α → Prop} {read : γ → Reading α}
    (hread : ∀ c, Yields (read c) P) (cs : List γ) :
    Yields (cs.mapM read) fun as => ∀ a ∈ as, P a := by
  induction cs with
  | nil => exact .pure (by simp)
  | cons c cs ih =>
    rw [List.mapM_cons]
    refine (hread c).bind fun a ha => ih.bind fun as has => .pure fun b hb => ?_
    rcases List.mem_cons.mp hb with rfl | hb
    · exact ha
    · exact has b hb

/-- The lines in front of an empty one are not empty. -/
theorem yields_untilBlank (part : FilePart) :
    Yields (untilBlank part) fun lines => ∀ line ∈ lines, IsLine line ∧ line ≠ "" := by
  rintro ⟨rest, n⟩ lines r' hr h
  rw [untilBlank] at h
  dsimp only at h
  induction rest generalizing n lines with
  | nil => cases h
  | cons head rest ih =>
    cases head with
    | none => cases h
    | some text =>
      rw [linesUntilBlank] at h
      split at h
      next =>
        cases h
        exact ⟨by simp, hr.tail⟩
      next htext =>
        cases hmore : linesUntilBlank part (n + 1) rest with
        | error e => rw [hmore] at h; cases h
        | ok p =>
          rw [hmore] at h
          cases h
          obtain ⟨hlines, hr'⟩ := ih (n + 1) p.1 hr.tail hmore
          refine ⟨fun line hline => ?_, hr'⟩
          rcases List.mem_cons.mp hline with rfl | hline
          · exact ⟨hr line List.mem_cons_self, by simpa using htext⟩
          · exact hlines line hline

/-! ### Parts -/

/-- Neither a name nor a value of a variable is broken, and no value is empty. -/
theorem yields_readVariable (expected : Nat) : Yields (readVariable expected) fun v =>
    IsLine v.name ∧ ∀ literal ∈ v.values, IsLine literal ∧ literal ≠ "" := by
  refine (yields_nextLine .variableName).bind fun name hname =>
    (yields_numberLine .variableIndex).bind fun index _ => ?_
  have hvalues : Yields (untilBlank .variableValue >>= fun values =>
      Pure.pure ({ name, values } : Variable)) fun v =>
        IsLine v.name ∧ ∀ literal ∈ v.values, IsLine literal ∧ literal ≠ "" :=
    (yields_untilBlank .variableValue).bind fun values hvalues => .pure ⟨hname, hvalues⟩
  split
  · -- an index that is not the one due stops the reading, whatever would have followed
    exact (Yields.stop (P := fun _ => True) _).bind fun _ _ => hvalues
  · exact hvalues

/-- A change that is accepted points into the history of its variable. -/
theorem yields_readChange (tracked : List Variable) (line : String) :
    Yields (readChange tracked line) fun c =>
      History.Points tracked c ∧ c.1 ≤ Decimal.maxIndex ∧ c.2 ≤ Decimal.maxIndex := by
  rw [readChange]
  split
  next => exact .stop _
  next a b _ =>
    refine (yields_readNumber .changeIndex a).bind fun id hid =>
      (yields_readNumber .changeLength b).bind fun length hlength => ?_
    split
    next hinside =>
      obtain ⟨v, hv, hin⟩ := (Option.any_eq_true _ _).mp hinside
      rw [Bool.and_eq_true, decide_eq_true_eq, decide_eq_true_eq] at hin
      exact .pure ⟨⟨v, hv, hin⟩, hid, hlength⟩
    next => exact .stop _

/-- The three lengths of a snapshot are numbers that were accepted. -/
theorem le_of_snapshot? {line : String} {p : Snapshot} (h : snapshot? line = some p) :
    p.queue ≤ Decimal.maxIndex ∧ p.assets ≤ Decimal.maxIndex ∧ p.changes ≤ Decimal.maxIndex := by
  rw [snapshot?] at h
  simp only [Option.bind_eq_bind, Option.bind_eq_some_iff, Option.pure_def, Option.some.injEq] at h
  obtain ⟨_, -, _, -, q, hq, a, ha, c, hc, rfl⟩ := h
  exact ⟨le_of_toIndex? hq, le_of_toIndex? ha, le_of_toIndex? hc⟩

/-- Snapshots that are accepted are in order, and none speaks of more than there is in the logs. -/
theorem yields_readSnapshots (tip previous : Snapshot) (lines : List String) :
    Yields (readSnapshots tip previous lines) fun ps =>
      (previous :: ps).Pairwise (fun p q : Snapshot => q.follows p = true) ∧ ∀ p ∈ ps,
        tip.follows p ∧ p.queue ≤ Decimal.maxIndex ∧ p.assets ≤ Decimal.maxIndex ∧
          p.changes ≤ Decimal.maxIndex := by
  induction lines generalizing previous with
  | nil => exact .pure ⟨List.pairwise_singleton _ _, by simp⟩
  | cons line lines ih =>
    rw [readSnapshots]
    split
    next => exact .stop _
    next p hp =>
      split
      next hin =>
        rw [Bool.and_eq_true] at hin
        refine (ih p).bind fun ps hps => .pure ⟨List.pairwise_cons.mpr ⟨fun q hq => ?_, hps.1⟩, ?_⟩
        · rcases List.mem_cons.mp hq with rfl | hq
          · exact hin.1
          · exact follows_trans hin.1 ((List.pairwise_cons.mp hps.1).1 q hq)
        · intro q hq
          rcases List.mem_cons.mp hq with rfl | hq
          · exact ⟨hin.2, le_of_snapshot? hp⟩
          · exact hps.2 q hq
      next => exact .stop _

/-- By induction on the lines that are left: each round takes two of them and puts a bookmark to the
ones that are found already. -/
theorem yields_bookmarksFrom {n : Nat} {found m : SortedMap Nat String}
    {rest : List (Option String)} {r' : Reader} (hr : Reader.Kept ⟨rest, n⟩)
    (hfound : ∀ e ∈ found.entries, e.1 ≤ Decimal.maxIndex ∧ IsLine e.2)
    (h : bookmarksFrom n found rest = .ok (m, r')) :
    (∀ e ∈ m.entries, e.1 ≤ Decimal.maxIndex ∧ IsLine e.2) ∧ r'.Kept := by
  fun_induction bookmarksFrom n found rest with
  | case1 | case2 | case4 | case5 | case6 => cases h
  | case3 =>
    cases h
    exact ⟨hfound, hr.tail⟩
  | case7 n found index _ queue hqueue description rest ih =>
    have hrest : Reader.Kept ⟨rest, n + 2⟩ := fun text htext => hr text (by simp [htext])
    refine ih hrest (fun e he => ?_) h
    rcases SortedMap.mem_insert he with rfl | he
    · exact ⟨le_of_toIndex? hqueue, hr description (by simp)⟩
    · exact hfound e he

/-- Bookmarks are on numbers that were accepted, but nothing is said of an action there. -/
theorem yields_readBookmarks : Yields readBookmarks fun m =>
    ∀ e ∈ m.entries, e.1 ≤ Decimal.maxIndex ∧ IsLine e.2 := by
  rintro ⟨rest, n⟩ m r' hr h
  exact yields_bookmarksFrom hr (by simp [SortedMap.empty]) h

/-! ### The whole -/

/-- The parts of contents fit together as far as reading looks at them. -/
structure Contents.Sound (c : Contents) : Prop where
  name : IsLine c.name
  queue : ∀ entry ∈ c.queue, IsLine entry
  assets : ∀ set ∈ c.assets, ∀ asset ∈ set, IsLine asset ∧ asset ≠ ""
  tracked : ∀ v ∈ c.tracked, IsLine v.name ∧ ∀ literal ∈ v.values, IsLine literal ∧ literal ≠ ""
  /-- Each change points into the history that stands at its position in the file. -/
  points : ∀ d ∈ c.changes, History.Points c.tracked d
  /-- No log is shorter at a later snapshot. -/
  ordered : (Snapshot.start :: c.snapshots).Pairwise fun p q : Snapshot => q.follows p = true
  /-- No snapshot speaks of more than there is in the logs. -/
  within : ∀ p ∈ c.snapshots, c.tip.follows p
  bookmarks : ∀ e ∈ c.bookmarks.entries, e.1 ≤ Decimal.maxIndex ∧ IsLine e.2
  counts_le : c.queue.length ≤ Decimal.maxIndex ∧ c.assets.length ≤ Decimal.maxIndex ∧
    c.tracked.length ≤ Decimal.maxIndex
  changes_le : ∀ d ∈ c.changes, d.1 ≤ Decimal.maxIndex ∧ d.2 ≤ Decimal.maxIndex
  snapshots_le : ∀ p ∈ c.snapshots, p.queue ≤ Decimal.maxIndex ∧ p.assets ≤ Decimal.maxIndex ∧
    p.changes ≤ Decimal.maxIndex

/-- What is read of a file is sound: each part is as its own reader leaves it. -/
theorem yields_readContents : Yields readContents Contents.Sound := by
  refine (yields_nextLine .sessionName).bind fun name hname => ?_
  refine (yields_numberLine .queueCount).bind fun queueCount hqueueCount => ?_
  refine (yields_readMany (fun _ => yields_nextLine .queueEntry) 0 queueCount).bind
    fun queue hqueue => ?_
  refine (yields_numberLine .assetCount).bind fun assetCount hassetCount => ?_
  refine (yields_readMany (fun _ => yields_untilBlank .assetName) 0 assetCount).bind
    fun assets hassets => ?_
  refine (yields_numberLine .variableCount).bind fun variableCount hvariableCount => ?_
  refine (yields_readMany yields_readVariable 0 variableCount).bind fun tracked htracked => ?_
  refine (yields_untilBlank .changePair).bind fun changeLines _ => ?_
  refine (yields_mapM (yields_readChange tracked) changeLines).bind fun changes hchanges => ?_
  refine (yields_untilBlank .snapshot).bind fun snapshotLines _ => ?_
  refine (yields_readSnapshots _ .start snapshotLines).bind fun snapshots hsnapshots => ?_
  refine yields_readBookmarks.bind fun bookmarks hbookmarks => ?_
  have hsound : Contents.Sound { name, queue, assets, tracked, changes, snapshots, bookmarks } :=
    { name := hname
      queue := hqueue.2
      assets := hassets.2
      tracked := htracked.2
      points := fun d hd => (hchanges d hd).1
      ordered := hsnapshots.1
      within := fun p hp => (hsnapshots.2 p hp).1
      bookmarks := hbookmarks
      counts_le := ⟨hqueue.1 ▸ hqueueCount, hassets.1 ▸ hassetCount, htracked.1 ▸ hvariableCount⟩
      changes_le := fun d hd => (hchanges d hd).2
      snapshots_le := fun p hp => (hsnapshots.2 p hp).2 }
  refine (yields_nextLine .endMarker).bind fun last _ => ?_
  split
  · exact (Yields.stop (P := fun _ => True) _).bind fun _ _ => .pure hsound
  · exact .pure hsound

/-! ### The lines of a file -/

/-- A line has no feed in it. -/
theorem not_feed_of_mem_splitLines {α : Type} {isFeed : α → Bool} {us line : List α}
    (h : line ∈ splitLines isFeed us) : ∀ u ∈ line, isFeed u = false := by
  induction us generalizing line with
  | nil => simp [splitLines] at h
  | cons u us ih =>
    rw [splitLines] at h
    split at h
    next =>
      rcases List.mem_cons.mp h with rfl | h
      · simp
      · exact ih h
    next hu =>
      rw [Bool.not_eq_true] at hu
      cases hlines : splitLines isFeed us with
      | nil =>
        rw [hlines] at h
        rw [List.mem_singleton.mp h]
        simpa using hu
      | cons first more =>
        rw [hlines] at h ih
        rcases List.mem_cons.mp h with rfl | h
        · intro w hw
          rcases List.mem_cons.mp hw with rfl | hw
          · exact hu
          · exact ih List.mem_cons_self w hw
        · exact ih (List.mem_cons_of_mem first h)

/-- The line of some characters without a line feed is kept. -/
theorem isLine_withoutReturns {cs : List Char} (h : '\n' ∉ cs) : IsLine (withoutReturns cs) where
  no_feed hmem := by
    rw [withoutReturns, String.toList_ofList, List.mem_reverse] at hmem
    exact h (List.mem_reverse.mp ((List.dropWhile_suffix _).mem hmem))
  no_return hlast := by
    rw [withoutReturns, String.toList_ofList, List.getLast?_reverse] at hlast
    have hhead := List.head?_dropWhile_not (· == '\r') cs.reverse
    rw [hlast] at hhead
    simp at hhead

/-- The lines of bytes are kept. -/
theorem kept_lines (bytes : List UInt8) :
    Reader.Kept ⟨(splitLines (· == 10) bytes).map lineText?, 0⟩ := by
  intro line hline
  obtain ⟨piece, hpiece, hline⟩ := List.mem_map.mp hline
  obtain ⟨s, hs, rfl⟩ := Option.map_eq_some_iff.mp hline
  refine isLine_withoutReturns fun hfeed => ?_
  -- a line feed in the text of a line would be one among its bytes
  have hbytes : piece = s.toList.flatMap String.utf8EncodeChar := by
    rw [String.fromUTF8?] at hs
    split at hs
    next hvalid =>
      have htext : s.toByteArray = ⟨piece.toArray⟩ := by rw [← Option.some.inj hs]; rfl
      rw [← String.utf8Encode_toList, List.utf8Encode] at htext
      have hdata := congrArg (·.data.toList) htext
      rw [List.toList_data_toByteArray] at hdata
      exact hdata.symm
    next => cases hs
  have hten : 10 ∈ piece := by
    rw [hbytes]
    exact List.mem_flatMap.mpr ⟨'\n', hfeed, by decide⟩
  have hno := not_feed_of_mem_splitLines hpiece 10 hten
  simp at hno

/-- Accepted contents are sound. -/
theorem sound_of_contents {bytes : List UInt8} {c : Contents} (h : contents bytes = .ok c) :
    c.Sound := by
  rw [contents] at h
  cases hread : readContents ⟨(splitLines (· == 10) bytes).map lineText?, 0⟩ with
  | error e => rw [hread] at h; cases h
  | ok p =>
    rw [hread] at h
    cases h
    exact (yields_readContents _ _ _ (kept_lines bytes) hread).1

end Gamebook.Session
