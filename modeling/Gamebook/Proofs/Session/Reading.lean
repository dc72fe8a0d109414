import Gamebook.Proofs.SortedMap
import Gamebook.Proofs.Value.Literal
import Gamebook.Session.File

/-!
# Reading the parts of a session file

`Session.Reads` says that a part of the reading takes some lines, whatever follows them, and what it
answers with. There is a law for each kind of part, about the lines that are written for it, and
`Reads.bind` puts the parts one behind the other.
-/

namespace Gamebook

/-! ### Numbers -/

namespace Decimal

/-- A numeral is written with digits only. -/
theorem isDigit_of_mem_text {n : Nat} {c : Char} (hc : c ∈ (text n).toList) : c.isDigit := by
  rw [text, String.toList_ofList] at hc
  exact isDigit_of_mem_ofNat hc

/-- A position or length is read back from its numeral. -/
theorem toIndex?_trim_text {n : Nat} (hn : n ≤ maxIndex) :
    toIndex? (Text.trim (text n).toList) = some n := by
  have htrim : Text.trim (text n).toList = ofNat n := by
    rw [Text.trim_eq_self fun c hc => Text.isSpace_of_isDigit (isDigit_of_mem_text hc), text,
      String.toList_ofList]
  have hunsigned : ∀ rest, ofNat n = '+' :: rest → False := by
    intro rest hplus
    exact absurd (isDigit_of_mem_ofNat (hplus ▸ List.mem_cons_self)) (by decide)
  rw [htrim, toIndex?, toNat?_ofNat, Option.bind_some, if_pos hn]
  exact hunsigned

end Decimal

namespace Session

/-! ### What reading takes -/

variable {α β : Type}

/-- Reading takes some lines, whatever follows, and answers with a thing. -/
def Reads (read : Reading α) (lines : List String) (a : α) : Prop :=
  ∀ rest n, read ⟨lines.map some ++ rest, n⟩ = .ok (a, ⟨rest, n + lines.length⟩)

theorem Reads.pure (a : α) : Reads (Pure.pure a) [] a := fun _ _ => rfl

/-- Reading one part and then the next takes the lines of the one and of the other. -/
theorem Reads.bind {read : Reading α} {next : α → Reading β} {lines more : List String} {a : α}
    {b : β} (hread : Reads read lines a) (hnext : Reads (next a) more b) :
    Reads (read >>= next) (lines ++ more) b := by
  intro rest n
  have hstep : (read >>= next) ⟨(lines ++ more).map some ++ rest, n⟩ =
      next a ⟨more.map some ++ rest, n + lines.length⟩ := by
    rw [List.map_append, List.append_assoc]
    exact congrArg (Except.bind · fun p => next p.1 p.2) (hread (more.map some ++ rest) n)
  rw [hstep, hnext, List.length_append, Nat.add_assoc]

/-- What is answered may still be changed, at no cost in lines. -/
theorem Reads.map {read : Reading α} {lines : List String} {a : α} (hread : Reads read lines a)
    (f : α → β) : Reads (read >>= fun a => Pure.pure (f a)) lines (f a) := by
  have hbind : Reads (read >>= fun a => Pure.pure (f a)) (lines ++ []) (f a) :=
    hread.bind (.pure (f a))
  rwa [List.append_nil] at hbind

/-! ### Lines -/

/-- The next line is taken as it stands. -/
theorem reads_nextLine (part : FilePart) (line : String) : Reads (nextLine part) [line] line :=
  fun _ _ => rfl

/-- A number is read off a line at hand, so no line is taken. -/
theorem reads_readNumber (part : FilePart) {n : Nat} (hn : n ≤ Decimal.maxIndex) :
    Reads (readNumber part (Decimal.text n)) [] n := by
  rw [readNumber, Decimal.toIndex?_trim_text hn]
  exact .pure n

/-- A line with a numeral is taken for its number. -/
theorem reads_numberLine (part : FilePart) {n : Nat} (hn : n ≤ Decimal.maxIndex) :
    Reads (numberLine part) [Decimal.text n] n :=
  (reads_nextLine part (Decimal.text n)).bind (reads_readNumber part hn)

/-- Lines that are not empty are taken, whatever follows them. -/
theorem linesUntilBlank_append (part : FilePart) {lines : List String}
    (hlines : ∀ l ∈ lines, l ≠ "") (rest : List (Option String)) (n : Nat) :
    linesUntilBlank part n (lines.map some ++ rest) =
      (linesUntilBlank part (n + lines.length) rest).map fun (more, r) => (lines ++ more, r) := by
  induction lines generalizing n with
  | nil => cases hrest : linesUntilBlank part n rest <;> simp [hrest, Except.map]
  | cons line lines ih =>
    have hne : line.isEmpty = false := by simpa using hlines line List.mem_cons_self
    have hrest := ih (fun l hl => hlines l (List.mem_cons_of_mem line hl)) (n + 1)
    simp only [List.map_cons, List.cons_append, linesUntilBlank, hne, List.length_cons]
    rw [hrest, Nat.add_right_comm, Nat.add_assoc n]
    cases linesUntilBlank part (n + (lines.length + 1)) rest <;> rfl

/-- A block of lines is taken together with the blank line that ends it. -/
theorem reads_untilBlank (part : FilePart) {lines : List String} (hlines : ∀ l ∈ lines, l ≠ "") :
    Reads (untilBlank part) (lines ++ [""]) lines := by
  intro rest n
  have hblank : linesUntilBlank part (n + lines.length) ([""].map some ++ rest) =
      .ok ([], ⟨rest, n + lines.length + 1⟩) := rfl
  rw [untilBlank, List.map_append, List.append_assoc, linesUntilBlank_append part hlines, hblank]
  simp [Except.map, Nat.add_assoc]

/-! ### Rows of things -/

/-- Things that are read one by one are read as many. -/
theorem reads_readMany {read : Nat → Reading α} {lines : α → Nat → List String} {as : List α}
    {first : Nat} (hread : ∀ e ∈ as.zipIdx first, Reads (read e.2) (lines e.1 e.2) e.1) :
    Reads (readMany read first as.length)
      ((as.zipIdx first).flatMap fun e => lines e.1 e.2) as := by
  induction as generalizing first with
  | nil => exact .pure []
  | cons a as ih =>
    rw [List.zipIdx_cons, List.flatMap_cons]
    have hhead := hread (a, first) (by simp [List.zipIdx_cons])
    have htail := @ih (first + 1) fun e he => hread e (by simp [List.zipIdx_cons, he])
    exact hhead.bind (htail.map (a :: ·))

/-- The lines of things that do not tell their positions. -/
theorem flatMap_zipIdx (as : List α) (first : Nat) (f : α → List β) :
    ((as.zipIdx first).flatMap fun e => f e.1) = as.flatMap f := by
  rw [← List.flatMap_map Prod.fst f, List.zipIdx_map_fst]

/-- Things that are read off lines at hand take no line. -/
theorem reads_mapM {read : String → Reading α} {line : α → String} {as : List α}
    (hread : ∀ a ∈ as, Reads (read (line a)) [] a) : Reads ((as.map line).mapM read) [] as := by
  induction as with
  | nil => exact .pure []
  | cons a as ih =>
    rw [List.map_cons, List.mapM_cons]
    have htail := ih fun b hb => hread b (List.mem_cons_of_mem a hb)
    exact (hread a List.mem_cons_self).bind (htail.map (a :: ·))

/-! ### Variables and changes -/

/-- A variable is its name, its position and its values up to a blank line; an empty value would end
it early. -/
theorem reads_readVariable {v : Variable} {id : Nat} (hid : id ≤ Decimal.maxIndex)
    (hvalues : ∀ literal ∈ v.values, literal ≠ "") :
    Reads (readVariable id) (variableLines v id) v := by
  show Reads _ ([v.name] ++ ([Decimal.text id] ++ (v.values ++ [""]))) v
  refine (reads_nextLine .variableName v.name).bind
    ((reads_numberLine .variableIndex hid).bind ?_)
  rw [if_neg (by simp)]
  exact (reads_untilBlank .variableValue hvalues).map fun values =>
    ({ name := v.name, values } : Variable)

/-- A text is taken apart at its first comma. -/
theorem splitComma_append {s t : String} (hs : ∀ c ∈ s.toList, c.isDigit) :
    splitComma (s ++ "," ++ t) = some (s, t) := by
  have hplain : ∀ c ∈ s.toList, (c != ',') = true := by
    intro c hc
    rw [bne_iff_ne]
    rintro rfl
    exact absurd (hs _ hc) (by decide)
  have hlist : (s ++ "," ++ t).toList = s.toList ++ ',' :: t.toList := by
    simp [String.toList_append]
  rw [splitComma, hlist, List.dropWhile_append_of_pos hplain, List.takeWhile_append_of_pos hplain]
  simp

/-- The line for a change. -/
theorem reads_readChange {tracked : List Variable} {c : Nat × Nat} {v : Variable}
    (hv : tracked[c.1]? = some v) (hpos : 1 ≤ c.2) (hle : c.2 ≤ v.values.length)
    (hid : c.1 ≤ Decimal.maxIndex) (hlength : c.2 ≤ Decimal.maxIndex) :
    Reads (readChange tracked s!"{Decimal.text c.1},{Decimal.text c.2}") [] c := by
  have hsplit : splitComma s!"{Decimal.text c.1},{Decimal.text c.2}" =
      some (Decimal.text c.1, Decimal.text c.2) :=
    splitComma_append fun _ hc => Decimal.isDigit_of_mem_text hc
  have hinside : ((tracked[c.1]?).any fun v => 1 ≤ c.2 && c.2 ≤ v.values.length) = true := by
    simp [hv, hpos, hle]
  rw [readChange, hsplit]
  show Reads _ ([] ++ ([] ++ [])) c
  refine (reads_readNumber .changeIndex hid).bind ((reads_readNumber .changeLength hlength).bind ?_)
  rw [if_pos hinside]
  exact .pure c

/-! ### Snapshots -/

/-- The three lengths in the line of a snapshot are read back. -/
theorem snapshot?_snapshotLine {p : Snapshot} (hqueue : p.queue ≤ Decimal.maxIndex)
    (hassets : p.assets ≤ Decimal.maxIndex) (hchanges : p.changes ≤ Decimal.maxIndex) :
    snapshot? (snapshotLine p) = some p := by
  have hline : snapshotLine p = Decimal.text p.queue ++ "," ++
      (Decimal.text p.assets ++ "," ++ Decimal.text p.changes) := by
    simp [snapshotLine, String.append_assoc, toString]
  rw [snapshot?, hline]
  simp only [splitComma_append fun _ hc => Decimal.isDigit_of_mem_text hc, Option.bind_eq_bind,
    Option.bind_some, Decimal.toIndex?_trim_text hqueue, Decimal.toIndex?_trim_text hassets,
    Decimal.toIndex?_trim_text hchanges]
  rfl

theorem comma_ne_empty (s t : String) : s ++ "," ++ t ≠ "" := by
  intro hempty
  have hcomma : ',' ∈ (s ++ "," ++ t).toList := by simp [String.toList_append]
  rw [hempty] at hcomma
  simp at hcomma

/-- Snapshots in order and within the lengths of the logs are read back from their lines. -/
theorem reads_readSnapshots {tip previous : Snapshot} {ps : List Snapshot}
    (hordered : (previous :: ps).Pairwise fun p q => q.follows p = true)
    (htip : ∀ p ∈ ps, tip.follows p)
    (hfit : ∀ p ∈ ps, p.queue ≤ Decimal.maxIndex ∧ p.assets ≤ Decimal.maxIndex ∧
      p.changes ≤ Decimal.maxIndex) :
    Reads (readSnapshots tip previous (ps.map snapshotLine)) [] ps := by
  induction ps generalizing previous with
  | nil => exact .pure []
  | cons p ps ih =>
    rw [List.pairwise_cons] at hordered
    obtain ⟨hqueue, hassets, hchanges⟩ := hfit p List.mem_cons_self
    have hin : (p.follows previous && tip.follows p) = true := by
      rw [hordered.1 p List.mem_cons_self, htip p List.mem_cons_self]
      rfl
    have htail := ih hordered.2 (fun q hq => htip q (List.mem_cons_of_mem p hq))
      fun q hq => hfit q (List.mem_cons_of_mem p hq)
    rw [List.map_cons, readSnapshots, snapshot?_snapshotLine hqueue hassets hchanges]
    simp only [hin, if_true]
    exact htail.map (p :: ·)

/-! ### Bookmarks -/

/-- Two lines make a bookmark, if the first of them is a number. -/
theorem bookmarksFrom_cons {index : String} {queue : Nat}
    (hqueue : Decimal.toIndex? (Text.trim index.toList) = some queue) (text : String)
    (found : SortedMap Nat String) (rest : List (Option String)) (n : Nat) :
    bookmarksFrom n found (some index :: some text :: rest) =
      bookmarksFrom (n + 2) (found.insert queue text) rest := by
  have hne : index.isEmpty = false := by
    rw [Bool.eq_false_iff]
    intro hempty
    rw [String.isEmpty_iff.mp hempty] at hqueue
    cases hqueue
  rw [bookmarksFrom, hne, hqueue]
  rfl

/-- Bookmarks are taken up one after the other from their lines. -/
theorem bookmarksFrom_eq {es : List (Nat × String)} (hfit : ∀ e ∈ es, e.1 ≤ Decimal.maxIndex)
    (found : SortedMap Nat String) (rest : List (Option String)) (n : Nat) :
    bookmarksFrom n found
        (((es.flatMap fun (queue, text) => [Decimal.text queue, text]) ++ [""]).map some ++ rest) =
      .ok (es.foldl (fun m e => m.insert e.1 e.2) found, ⟨rest, n + (2 * es.length + 1)⟩) := by
  induction es generalizing found n with
  | nil => rfl
  | cons e es ih =>
    obtain ⟨queue, text⟩ := e
    have hqueue := Decimal.toIndex?_trim_text (hfit (queue, text) List.mem_cons_self)
    have hstep := bookmarksFrom_cons hqueue text found
      (((es.flatMap fun (queue, text) => [Decimal.text queue, text]) ++ [""]).map some ++ rest) n
    have htail := ih (fun e he => hfit e (List.mem_cons_of_mem _ he)) (found.insert queue text)
      (n + 2)
    have hlines : n + 2 + (2 * es.length + 1) = n + (2 * (es.length + 1) + 1) := by omega
    rw [List.length_cons, ← hlines]
    exact hstep.trans htail

theorem length_bookmarkLines (es : List (Nat × String)) :
    (es.flatMap fun (queue, text) => [Decimal.text queue, text]).length = 2 * es.length := by
  induction es with
  | nil => rfl
  | cons e es ih =>
    rw [List.flatMap_cons, List.length_append, ih]
    simp only [List.length_cons, List.length_nil]
    omega

/-- The bookmarks of a session are read back from their lines: the pairs are in order, so taking
them up one by one gives the same map. -/
theorem reads_readBookmarks {m : SortedMap Nat String}
    (hfit : ∀ e ∈ m.entries, e.1 ≤ Decimal.maxIndex) :
    Reads readBookmarks
      ((m.entries.flatMap fun (queue, text) => [Decimal.text queue, text]) ++ [""]) m := by
  intro rest n
  have hentries : m.entries.foldl (fun m e => m.insert e.1 e.2) SortedMap.empty = m :=
    SortedMap.ofList_entries m
  rw [readBookmarks, bookmarksFrom_eq hfit, hentries, List.length_append, length_bookmarkLines]
  rfl

end Session

end Gamebook
