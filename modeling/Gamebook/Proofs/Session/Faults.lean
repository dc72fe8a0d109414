import Gamebook.Proofs.Session.Contents

/-!
# Where a file is at fault

A file that does not follow the layout is at fault in one line: what stands in front of it can be
completed to a file, and with it this can be done no more. Most parts are judged as soon as their
line is read, and the line that is reported is the one at fault. The changes and the snapshots are
judged only behind the blank line that ends their list, so it is this one that is reported, however
far in front of it the line at fault may be (`ofFile_fault`).

This is proved part by part. `Session.Locates` says of a part of the reading that it takes lines off
the front, and that a fault is in one of them.
-/

namespace Gamebook

/-! ### What a fault tells -/

/-- Whether a fault tells what stands in a line. -/
def LayoutFault.Quotes : LayoutFault → String → Prop
  | missing _, _ => False
  | badNumber .changeIndex found, line => ∃ behind, Session.splitComma line = some (found, behind)
  | badNumber .changeLength found, line => ∃ front, Session.splitComma line = some (front, found)
  | badNumber _ found, line => line = found
  | badVariableIndex _ found, line => Decimal.toIndex? (Text.trim line.toList) = some found
  | badPair found, line => line = found
  | changeOutside found, line => line = found
  | badSnapshot found, line => line = found
  | snapshotOutOfOrder found, line => line = found
  | badEnd found, line => line = found

/-- Whether a fault is one in a list that is judged behind its end. -/
def LayoutFault.inList : LayoutFault → Bool
  | badNumber .changeIndex _ | badNumber .changeLength _ | badPair _ | changeOutside _ => true
  | badSnapshot _ | snapshotOutOfOrder _ => true
  | _ => false

namespace Session

variable {α β : Type}

/-! ### Lines that can be completed, and lines that cannot -/

/-- Whether some lines are the first ones of what reading takes. -/
def Begins (read : Reading α) (front : List String) : Prop :=
  ∃ more a, (∀ line ∈ more, IsLine line) ∧ Reads read (front ++ more) a

/-- Whether reading does not get through some lines, whatever follows them. -/
def Rejects (read : Reading α) (lines : List String) : Prop :=
  ∀ rest n p, read ⟨lines.map some ++ rest, n⟩ ≠ .ok p

/-- Whether a fault is in a line behind some others. -/
structure FaultAt (read : Reading α) (front : List String) (line : String) (fault : LayoutFault) :
    Prop where
  quotes : fault.Quotes line
  begins : Begins read front
  rejects : Rejects read (front ++ [line])

/-- Where the fault is that is reported of line `n`. -/
inductive Located (read : Reading α) (r : Reader) (n : Nat) (fault : LayoutFault) : Prop
  /-- There is no further line. -/
  | missing (part : FilePart) : fault = .missing part → n = r.line + r.rest.length + 1 →
      Located read r n fault
  /-- It is in the line that is reported. -/
  | line (front : List String) (line : String) (behind : List (Option String)) :
      r.rest = front.map some ++ some line :: behind → FaultAt read front line fault →
      fault.inList = false → n = r.line + front.length + 1 → Located read r n fault
  /-- It is in a line of a list, and the one that is reported ends the list. -/
  | list (front : List String) (line : String) (more : List String)
      (behind : List (Option String)) :
      r.rest = front.map some ++ some line :: (more.map some ++ some "" :: behind) →
      FaultAt read front line fault → fault.inList = true → (∀ l ∈ more, l ≠ "") →
      n = r.line + front.length + more.length + 2 → Located read r n fault

/-- Whether a part of the reading can get through, takes lines off the front, and locates every
fault. -/
structure Locates (read : Reading α) : Prop where
  begins : Begins read []
  reads : ∀ r a r', read r = .ok (a, r') → ∃ lines rest n, r = ⟨lines.map some ++ rest, n⟩ ∧
    r' = ⟨rest, n + lines.length⟩ ∧ Reads read lines a
  located : ∀ r n fault, read r = .error (.layout n fault) → Located read r n fault

/-! ### One part behind another -/

/-- Whether reading takes some lines and goes on with another reading. -/
def Passes (whole : Reading β) (lines : List String) (next : Reading β) : Prop :=
  ∀ rest n, whole ⟨lines.map some ++ rest, n⟩ = next ⟨rest, n + lines.length⟩

namespace Passes

variable {whole next : Reading β} {lines : List String}

/-- What the next reading takes is taken behind those lines. -/
theorem reads (h : Passes whole lines next) {more : List String} {b : β}
    (hnext : Reads next more b) : Reads whole (lines ++ more) b := by
  intro rest n
  rw [List.map_append, List.append_assoc, h, hnext, List.length_append, Nat.add_assoc]

/-- Lines the next reading can begin with can be begun with behind those lines. -/
theorem begins (h : Passes whole lines next) {front : List String} (hnext : Begins next front) :
    Begins whole (lines ++ front) := by
  obtain ⟨more, b, hmore, hreads⟩ := hnext
  exact ⟨more, b, hmore, by rw [List.append_assoc]; exact h.reads hreads⟩

/-- A line at fault for the next reading is at fault for the whole. -/
theorem faultAt (h : Passes whole lines next) {front : List String} {line : String}
    {fault : LayoutFault} (hfault : FaultAt next front line fault) :
    FaultAt whole (lines ++ front) line fault where
  quotes := hfault.quotes
  begins := h.begins hfault.begins
  rejects := by
    intro rest n p
    rw [List.append_assoc, List.map_append, List.append_assoc, h]
    exact hfault.rejects rest _ p

/-- A fault behind the lines that are taken. -/
theorem located (h : Passes whole lines next) {rest : List (Option String)} {n m : Nat}
    {fault : LayoutFault} (hnext : Located next ⟨rest, n + lines.length⟩ m fault) :
    Located whole ⟨lines.map some ++ rest, n⟩ m fault := by
  cases hnext with
  | missing part hfault hm =>
    refine .missing part hfault ?_
    simp only [List.length_append, List.length_map] at hm ⊢
    omega
  | line front line behind hrest hfault hlist hm =>
    dsimp only at hrest hm
    refine .line (lines ++ front) line behind ?_ (h.faultAt hfault) hlist ?_
    · simp only [hrest, List.map_append, List.append_assoc]
    · simp only [List.length_append]
      omega
  | list front line more behind hrest hfault hlist hmore hm =>
    dsimp only at hrest hm
    refine .list (lines ++ front) line more behind ?_ (h.faultAt hfault) hlist hmore ?_
    · simp only [hrest, List.map_append, List.append_assoc]
    · simp only [List.length_append]
      omega

end Passes

/-- A part that has been read is passed. -/
theorem Reads.passes {read : Reading α} {lines : List String} {a : α} (h : Reads read lines a)
    (next : α → Reading β) : Passes (read >>= next) lines (next a) := by
  intro rest n
  rw [run_bind, h]
  rfl

section

variable {read : Reading α} {next : α → Reading β} {front : List String} {line : String}
  {fault : LayoutFault}

/-- What the first part can begin with the whole can begin with, if the rest can get through. -/
theorem Begins.bind (h : Begins read front)
    (hnext : ∀ a, (∃ lines, Reads read lines a) → Begins (next a) []) :
    Begins (read >>= next) front := by
  obtain ⟨more, a, hmore, hreads⟩ := h
  obtain ⟨others, b, hothers, hreads'⟩ := hnext a ⟨_, hreads⟩
  refine ⟨more ++ others, b, fun l hl => ?_, ?_⟩
  · exact (List.mem_append.mp hl).elim (hmore l) (hothers l)
  · rw [← List.append_assoc]
    exact hreads.bind hreads'

/-- A line that the first part does not get past stops the whole. -/
theorem FaultAt.bind (h : FaultAt read front line fault)
    (hnext : ∀ a, (∃ lines, Reads read lines a) → Begins (next a) []) :
    FaultAt (read >>= next) front line fault where
  quotes := h.quotes
  begins := h.begins.bind hnext
  rejects := by
    intro rest n p hok
    obtain ⟨q, hq, -⟩ := ok_of_bind hok
    exact h.rejects rest n q hq

/-- A fault of the first part is one of the whole, if what follows can get through. -/
theorem Located.bind {r : Reader} {n : Nat} (h : Located read r n fault)
    (hnext : ∀ a, (∃ lines, Reads read lines a) → Begins (next a) []) :
    Located (read >>= next) r n fault := by
  cases h with
  | missing part hfault hn => exact .missing part hfault hn
  | line front line behind hrest hfault hlist hn =>
    exact .line front line behind hrest (hfault.bind hnext) hlist hn
  | list front line more behind hrest hfault hlist hmore hn =>
    exact .list front line more behind hrest (hfault.bind hnext) hlist hmore hn

end

namespace Locates

/-- Answering at once takes nothing and stops nowhere. -/
theorem pure (a : α) : Locates (Pure.pure a) where
  begins := ⟨[], a, by simp, .pure a⟩
  reads := by
    intro r b r' h
    cases h
    exact ⟨[], r.rest, r.line, rfl, rfl, .pure a⟩
  located := by
    intro r n fault h
    cases h

/-- What follows has to be known only for answers that the first part can give. -/
theorem bind {read : Reading α} {next : α → Reading β} (hread : Locates read)
    (hnext : ∀ a, (∃ lines, Reads read lines a) → Locates (next a)) : Locates (read >>= next) where
  begins := hread.begins.bind fun a ha => (hnext a ha).begins
  reads := by
    intro r b r' h
    obtain ⟨⟨a, r₁⟩, hfirst, hsecond⟩ := ok_of_bind h
    obtain ⟨lines, rest, n, rfl, rfl, hreads⟩ := hread.reads r a r₁ hfirst
    obtain ⟨more, rest', n', hr₁, rfl, hreads'⟩ := (hnext a ⟨lines, hreads⟩).reads _ b r' hsecond
    cases hr₁
    refine ⟨lines ++ more, rest', n, ?_, ?_, hreads.bind hreads'⟩
    · rw [List.map_append, List.append_assoc]
    · rw [List.length_append, Nat.add_assoc]
  located := by
    intro r n fault h
    rw [run_bind] at h
    cases hfirst : read r with
    | error e =>
      rw [hfirst] at h
      cases h
      exact (hread.located r n fault hfirst).bind fun a ha => (hnext a ha).begins
    | ok q =>
      rw [hfirst] at h
      obtain ⟨lines, rest, k, rfl, hq, hreads⟩ := hread.reads r q.1 q.2 hfirst
      refine (hreads.passes next).located ((hnext q.1 ⟨lines, hreads⟩).located _ n fault ?_)
      rw [← hq]
      exact h

/-- A line that is judged by itself. -/
theorem line (part : FilePart) {judge : String → Reading β} {text : String} (htext : IsLine text)
    (hgoes : Begins (judge text) [])
    (hjudge : ∀ text, Locates (judge text) ∨
      ∃ fault, judge text = stop fault ∧ fault.Quotes text ∧ fault.inList = false) :
    Locates (nextLine part >>= judge) := by
  have hrun (text : String) (rest : List (Option String)) (n : Nat) :
      (nextLine part >>= judge) ⟨some text :: rest, n⟩ = judge text ⟨rest, n + 1⟩ := rfl
  have hpasses (text : String) : Passes (nextLine part >>= judge) [text] (judge text) := hrun text
  have hbegins : Begins (nextLine part >>= judge) [] := by
    obtain ⟨more, b, hmore, hreads⟩ := hgoes
    exact ⟨text :: more, b, List.forall_mem_cons.mpr ⟨htext, hmore⟩, (hpasses text).reads hreads⟩
  refine ⟨hbegins, ?_, ?_⟩
  · rintro ⟨rest, n⟩ b r' h
    match rest, h with
    | some text :: rest, h =>
      rw [hrun] at h
      rcases hjudge text with hlocates | ⟨fault, hstop, -, -⟩
      · obtain ⟨lines, rest', n', hr, rfl, hreads⟩ := hlocates.reads _ b r' h
        cases hr
        refine ⟨text :: lines, rest', n, rfl, ?_, (hpasses text).reads hreads⟩
        rw [List.length_cons, Nat.add_assoc, Nat.add_comm 1]
      · rw [hstop] at h
        cases h
  · rintro ⟨rest, n⟩ m fault h
    match rest, h with
    | [], h =>
      cases h
      exact .missing part rfl rfl
    | some text :: rest, h =>
      rw [hrun] at h
      rcases hjudge text with hlocates | ⟨fault', hstop, hquotes, hlist⟩
      · exact (hpasses text).located (hlocates.located _ m fault h)
      · rw [hstop] at h
        cases h
        refine .line [] text rest rfl ⟨hquotes, hbegins, fun rest' n' p hp => ?_⟩ hlist rfl
        have hjudged := (hrun text rest' n').symm.trans hp
        rw [hstop] at hjudged
        cases hjudged

end Locates

/-! ### Numbers and rows -/

theorem isLine_empty : IsLine "" := by decide

/-- The next line is missing, or it is not a text, or it is taken; no line is at fault here. -/
theorem locates_nextLine (part : FilePart) : Locates (nextLine part) := by
  have hline : Locates (nextLine part >>= Pure.pure) :=
    .line part isLine_empty (Locates.pure "").begins fun text => .inl (.pure text)
  rwa [bind_pure] at hline

/-- A text is read as a number, or it is quoted as none. -/
theorem readNumber_cases (part : FilePart) (text : String) :
    (∃ n, Decimal.toIndex? (Text.trim text.toList) = some n ∧ readNumber part text = pure n) ∨
      readNumber part text = stop (.badNumber part text) := by
  rw [readNumber]
  split
  next n hn => exact .inl ⟨n, hn, rfl⟩
  next => exact .inr rfl

/-- A line that is no number is told as it stands. -/
theorem locates_numberLine (part : FilePart)
    (hquotes : ∀ text, (LayoutFault.badNumber part text).Quotes text)
    (hlist : ∀ text, (LayoutFault.badNumber part text).inList = false) :
    Locates (numberLine part) := by
  refine .line part (isLine_text 0) ⟨[], 0, by simp, reads_readNumber part (Nat.zero_le _)⟩
    fun text => ?_
  rcases readNumber_cases part text with ⟨n, -, hread⟩ | hstop
  · exact .inl (hread ▸ .pure n)
  · exact .inr ⟨_, hstop, hquotes text, hlist text⟩

/-- A number that was read is within what a number can say. -/
theorem le_of_reads_numberLine {part : FilePart} {lines : List String} {n : Nat}
    (h : Reads (numberLine part) lines n) : n ≤ Decimal.maxIndex := by
  obtain ⟨⟨text, r⟩, -, hread⟩ := ok_of_bind (h [] 0)
  rcases readNumber_cases part text with ⟨m, hm, hpure⟩ | hstop
  · rw [hpure] at hread
    cases hread
    exact le_of_toIndex? hm
  · rw [hstop] at hread
    cases hread

/-- Things are read one after the other, so the first fault among them is the fault of all. -/
theorem locates_readMany {read : Nat → Reading α} {first count : Nat}
    (hread : ∀ i < first + count, Locates (read i)) : Locates (readMany read first count) := by
  induction count generalizing first with
  | zero => exact .pure []
  | succ count ih =>
    refine (hread first (by omega)).bind fun a _ => (ih fun i hi => hread i (by omega)).bind
      fun as _ => .pure (a :: as)

/-! ### Lists -/

/-- What is judged of some lines one after the other: the first one that is at fault decides,
whatever stands behind it. -/
inductive Judged (check : List String → Reading α) (lines : List String) : Prop
  /-- All of them are in order. -/
  | passed (a : α) : check lines = pure a → Judged check lines
  /-- One is at fault, and the ones in front of it are in order. -/
  | fault (front : List String) (line : String) (behind : List String) (fault : LayoutFault)
      (a : α) : lines = front ++ line :: behind → check front = pure a →
      (∀ more, check (front ++ line :: more) = stop fault) → fault.Quotes line →
      fault.inList = true → Judged check lines

/-- Lines are read up to an empty one, or to the end. -/
theorem untilBlank_cases (part : FilePart) (r : Reader) :
    (∃ lines rest, r.rest = lines.map some ++ some "" :: rest ∧ (∀ l ∈ lines, l ≠ "") ∧
      untilBlank part r = .ok (lines, ⟨rest, r.line + lines.length + 1⟩)) ∨
    untilBlank part r = .error (.layout (r.line + r.rest.length + 1) (.missing part)) ∨
    untilBlank part r = .error (.unavailable .notText) := by
  obtain ⟨rest, n⟩ := r
  rw [untilBlank]
  induction rest generalizing n with
  | nil => exact .inr (.inl rfl)
  | cons head rest ih =>
    cases head with
    | none => exact .inr (.inr rfl)
    | some text =>
      rw [linesUntilBlank]
      split
      next hempty =>
        rw [String.isEmpty_iff.mp hempty]
        exact .inl ⟨[], rest, rfl, by simp, rfl⟩
      next hempty =>
        rcases ih (n + 1) with ⟨lines, behind, hrest, hlines, hread⟩ | hread | hread
        · dsimp only at hrest hread ⊢
          refine .inl ⟨text :: lines, behind, by rw [hrest]; rfl, ?_, ?_⟩
          · exact List.forall_mem_cons.mpr ⟨by simpa using hempty, hlines⟩
          · rw [hread, List.length_cons, Nat.add_right_comm n 1, ← Nat.add_assoc n]
            rfl
        · dsimp only at hread ⊢
          rw [hread, List.length_cons]
          exact .inr (.inl (by rw [Nat.add_right_comm n 1, ← Nat.add_assoc n]; rfl))
        · dsimp only at hread ⊢
          rw [hread]
          exact .inr (.inr rfl)

/-- Lines that are not empty and of which one is at fault are not got through. -/
theorem rejects_untilBlank {check : List String → Reading α} {lines : List String}
    {fault : LayoutFault} (hlines : ∀ l ∈ lines, l ≠ "")
    (hstop : ∀ more, check (lines ++ more) = stop fault) (part : FilePart) :
    Rejects (untilBlank part >>= check) lines := by
  intro rest n p hok
  obtain ⟨⟨read, r⟩, hread, hcheck⟩ := ok_of_bind hok
  rw [untilBlank, linesUntilBlank_append part hlines] at hread
  cases hmore : linesUntilBlank part (n + lines.length) rest with
  | error e =>
    rw [hmore] at hread
    cases hread
  | ok q =>
    rw [hmore] at hread
    cases hread
    rw [hstop] at hcheck
    cases hcheck

section

variable {check : List String → Reading α} (part : FilePart)

/-- Lines that are in order are read up to the empty one behind them. -/
theorem reads_list {lines : List String} (hlines : ∀ l ∈ lines, l ≠ "") {a : α}
    (ha : check lines = pure a) : Reads (untilBlank part >>= check) (lines ++ [""]) a := by
  have hjudged : Reads (check lines) [] a := ha ▸ .pure a
  have hreads := (reads_untilBlank part hlines).bind hjudged
  rwa [List.append_nil] at hreads

/-- A list can begin with lines that are in order, and may end there. -/
theorem begins_list {front : List String} (hfront : ∀ l ∈ front, l ≠ "") {a : α}
    (ha : check front = pure a) : Begins (untilBlank part >>= check) front :=
  ⟨[""], a, by simp [isLine_empty], reads_list part hfront ha⟩

/-- The first line of a list that is not in order is the one at fault. -/
theorem faultAt_list {front : List String} {line : String} {fault : LayoutFault}
    (hlines : ∀ l ∈ front ++ [line], l ≠ "") {a : α} (ha : check front = pure a)
    (hstop : ∀ more, check (front ++ line :: more) = stop fault) (hquotes : fault.Quotes line) :
    FaultAt (untilBlank part >>= check) front line fault where
  quotes := hquotes
  begins := begins_list part (fun l hl => hlines l (List.mem_append_left _ hl)) ha
  rejects := by
    have hjudged (more : List String) : check (front ++ [line] ++ more) = stop fault := by
      rw [List.append_assoc]
      exact hstop more
    exact rejects_untilBlank hlines hjudged part

/-- A list that is judged is read up to its end, or a fault in it is told behind the line that ends
it, or the file is not a text. -/
theorem run_list (h : ∀ lines, Judged check lines) (r : Reader) :
    (∃ lines rest n a, r = ⟨lines.map some ++ rest, n⟩ ∧
      (untilBlank part >>= check) r = .ok (a, ⟨rest, n + lines.length⟩) ∧
      Reads (untilBlank part >>= check) lines a) ∨
    (∃ n fault, (untilBlank part >>= check) r = .error (.layout n fault) ∧
      Located (untilBlank part >>= check) r n fault) ∨
    (untilBlank part >>= check) r = .error (.unavailable .notText) := by
  obtain ⟨rest, n⟩ := r
  rw [run_bind]
  rcases untilBlank_cases part ⟨rest, n⟩ with ⟨lines, behind, rfl, hne, hread⟩ | hread | hread
  · rw [hread, Except.bind]
    cases h lines with
    | passed a ha =>
      refine .inl ⟨lines ++ [""], behind, n, a, by simp, ?_, reads_list part hne ha⟩
      rw [ha, List.length_append, ← Nat.add_assoc]
      rfl
    | fault front line more fault a hlines ha hstop hquotes hlist =>
      subst hlines
      obtain ⟨hfront, hbehind⟩ := List.forall_mem_append.mp hne
      obtain ⟨hline, hmore⟩ := List.forall_mem_cons.mp hbehind
      have hfault := faultAt_list part
        (List.forall_mem_append.mpr ⟨hfront, by simpa using hline⟩) ha hstop hquotes
      refine .inr (.inl ⟨_, fault, by rw [hstop]; rfl,
        .list front line more behind (by simp) hfault hlist hmore ?_⟩)
      simp only [List.length_append, List.length_cons]
      omega
  · rw [hread]
    exact .inr (.inl ⟨_, _, rfl, .missing part rfl rfl⟩)
  · rw [hread]
    exact .inr (.inr rfl)

end

/-- A fault in a list is told behind the line that ends it. -/
theorem locates_list {check : List String → Reading α} (h : ∀ lines, Judged check lines)
    (part : FilePart) : Locates (untilBlank part >>= check) where
  begins := by
    cases h [] with
    | passed a ha => exact begins_list part (by simp) ha
    | fault front line behind fault a hnil => simp at hnil
  reads := by
    intro r a r' hok
    rcases run_list part h r with ⟨lines, rest, n, b, rfl, hrun, hreads⟩ | ⟨n, fault, hrun, -⟩ |
      hrun
    · rw [hok] at hrun
      cases hrun
      exact ⟨lines, rest, n, rfl, rfl, hreads⟩
    · rw [hok] at hrun
      cases hrun
    · rw [hok] at hrun
      cases hrun
  located := by
    intro r n fault herror
    rcases run_list part h r with ⟨lines, rest, m, b, rfl, hrun, -⟩ | ⟨m, fault', hrun, hat⟩ | hrun
    · rw [herror] at hrun
      cases hrun
    · rw [herror] at hrun
      cases hrun
      exact hat
    · rw [herror] at hrun
      cases hrun

/-- A list of which nothing is judged has no faulty line. -/
theorem locates_untilBlank (part : FilePart) : Locates (untilBlank part) := by
  have hlocates : Locates (untilBlank part >>= pure) :=
    locates_list (fun lines => .passed lines rfl) part
  rwa [bind_pure] at hlocates

theorem stop_bind (fault : LayoutFault) (next : α → Reading β) :
    stop fault >>= next = stop fault := rfl

/-- What is judged of further lines is not changed by one in front of them that is in order. -/
theorem Judged.cons {check : List String → Reading α} {checkMore : List String → Reading β}
    {line : String} {f : β → α}
    (hcons : ∀ others, check (line :: others) = checkMore others >>= fun b => pure (f b))
    {lines : List String} (h : Judged checkMore lines) : Judged check (line :: lines) := by
  cases h with
  | passed b hb => exact .passed (f b) (by rw [hcons, hb, pure_bind])
  | fault front bad behind fault b hlines hb hstop hquotes hlist =>
    refine .fault (line :: front) bad behind fault (f b) (by rw [hlines]; rfl) ?_ (fun more => ?_)
      hquotes hlist
    · rw [hcons, hb, pure_bind]
    · rw [List.cons_append, hcons, hstop, stop_bind]

/-- Lines that are judged one by one, each by itself. -/
theorem judged_mapM {judge : String → Reading α}
    (hjudge : ∀ line, (∃ a, judge line = pure a) ∨
      ∃ fault, judge line = stop fault ∧ fault.Quotes line ∧ fault.inList = true)
    (lines : List String) : Judged (fun lines => lines.mapM judge) lines := by
  induction lines with
  | nil => exact .passed [] rfl
  | cons line lines ih =>
    rcases hjudge line with ⟨a, ha⟩ | ⟨fault, hstop, hquotes, hlist⟩
    · refine ih.cons (f := (a :: ·)) fun others => ?_
      rw [List.mapM_cons, ha, pure_bind]
    · refine .fault [] line lines fault [] rfl rfl (fun more => ?_) hquotes hlist
      rw [List.nil_append, List.mapM_cons, hstop, stop_bind]

/-- A pair is accepted or quoted: in the whole if it points nowhere or has no comma, else the half
that is no number. -/
theorem readChange_cases (tracked : List Variable) (line : String) :
    (∃ c, readChange tracked line = pure c) ∨
      ∃ fault, readChange tracked line = stop fault ∧ fault.Quotes line ∧
        fault.inList = true := by
  rw [readChange]
  split
  next => exact .inr ⟨_, rfl, rfl, rfl⟩
  next a b hsplit =>
    rcases readNumber_cases .changeIndex a with ⟨id, -, hid⟩ | hstop
    · rcases readNumber_cases .changeLength b with ⟨length, -, hlength⟩ | hstop
      · rw [hid, hlength, pure_bind, pure_bind]
        split
        · exact .inl ⟨_, rfl⟩
        · exact .inr ⟨_, rfl, rfl, rfl⟩
      · rw [hid, pure_bind, hstop, stop_bind]
        exact .inr ⟨_, rfl, ⟨a, hsplit⟩, rfl⟩
    · rw [hstop, stop_bind]
      exact .inr ⟨_, rfl, ⟨b, hsplit⟩, rfl⟩

/-- A triple is judged by the one in front of it and by the lengths of the logs. -/
theorem judged_readSnapshots (tip previous : Snapshot) (lines : List String) :
    Judged (readSnapshots tip previous) lines := by
  induction lines generalizing previous with
  | nil => exact .passed [] rfl
  | cons line lines ih =>
    cases hline : snapshot? line with
    | none =>
      refine .fault [] line lines (.badSnapshot line) [] rfl rfl (fun more => ?_) rfl rfl
      rw [List.nil_append, readSnapshots, hline]
    | some s =>
      by_cases hin : (s.follows previous && tip.follows s) = true
      · refine (ih s).cons (f := (s :: ·)) fun others => ?_
        rw [readSnapshots, hline]
        exact if_pos hin
      · refine .fault [] line lines (.snapshotOutOfOrder line) [] rfl rfl (fun more => ?_) rfl rfl
        rw [List.nil_append, readSnapshots, hline]
        exact if_neg hin

/-! ### Variables and bookmarks -/

/-- Behind the name there must stand the position of the variable, and a line that says something
else is at fault. -/
theorem locates_readVariable {expected : Nat} (h : expected ≤ Decimal.maxIndex) :
    Locates (readVariable expected) := by
  refine (locates_nextLine .variableName).bind fun name _ => ?_
  have hvalues : Locates (untilBlank .variableValue >>= fun values =>
      pure ({ name, values } : Variable)) :=
    (locates_untilBlank .variableValue).bind fun values _ => .pure _
  rw [numberLine, bind_assoc]
  refine .line .variableIndex (isLine_text expected) ?_ fun text => ?_
  · have hread : readNumber .variableIndex (Decimal.text expected) = pure expected := by
      rw [readNumber, Decimal.toIndex?_trim_text h]
    rw [hread, pure_bind, if_neg (not_not_intro rfl)]
    exact hvalues.begins
  · rcases readNumber_cases .variableIndex text with ⟨n, hn, hread⟩ | hstop
    · rw [hread, pure_bind]
      split
      · exact .inr ⟨_, stop_bind _ _, hn, rfl⟩
      · exact .inl hvalues
    · rw [hstop]
      exact .inr ⟨_, stop_bind _ _, rfl, rfl⟩

/-- Read bookmarks, some of which are found already. -/
def readMoreBookmarks (found : SortedMap Nat String) : Reading (SortedMap Nat String) := fun r =>
  bookmarksFrom r.line found r.rest

/-- A bookmark that is read is added to the ones that are found already. -/
theorem passes_bookmark {index : String} {queue : Nat}
    (hqueue : Decimal.toIndex? (Text.trim index.toList) = some queue) (description : String)
    (found : SortedMap Nat String) :
    Passes (readMoreBookmarks found) [index, description]
      (readMoreBookmarks (found.insert queue description)) :=
  fun rest n => bookmarksFrom_cons hqueue description found rest n

/-- Bookmarks are judged line by line, so a fault in them is told on its own line. -/
theorem locates_readMoreBookmarks (found : SortedMap Nat String) :
    Locates (readMoreBookmarks found) := by
  have hblank (found : SortedMap Nat String) : Reads (readMoreBookmarks found) [""] found :=
    fun _ _ => rfl
  have hbegins (found : SortedMap Nat String) : Begins (readMoreBookmarks found) [] :=
    ⟨[""], found, by simp [isLine_empty], hblank found⟩
  refine ⟨hbegins found, ?_, ?_⟩
  · rintro ⟨rest, n⟩ m r' h
    rw [readMoreBookmarks] at h
    dsimp only at h
    fun_induction bookmarksFrom n found rest with
    | case1 | case2 | case4 | case5 | case6 => cases h
    | case3 n found index rest hempty =>
      cases h
      rw [String.isEmpty_iff.mp hempty]
      exact ⟨[""], rest, n, rfl, rfl, hblank _⟩
    | case7 n found index _ queue hqueue description rest ih =>
      obtain ⟨lines, behind, k, hr, rfl, hreads⟩ := ih h
      cases hr
      refine ⟨index :: description :: lines, behind, n, rfl, ?_,
        (passes_bookmark hqueue description found).reads hreads⟩
      simp only [List.length_cons, Reader.mk.injEq, true_and]
      omega
  · rintro ⟨rest, n⟩ m fault h
    rw [readMoreBookmarks] at h
    dsimp only at h
    fun_induction bookmarksFrom n found rest with
    | case2 | case3 | case6 => cases h
    | case1 n found =>
      cases h
      exact .missing .bookmarkIndex rfl rfl
    | case4 n found index rest hempty hnone =>
      cases h
      refine .line [] index rest rfl ⟨rfl, hbegins found, fun rest' k p hok => ?_⟩ rfl rfl
      have hrun : bookmarksFrom k found (some index :: rest') = .ok p := hok
      rw [bookmarksFrom, if_neg hempty, hnone] at hrun
      cases hrun
    | case5 n found index hempty queue hqueue =>
      cases h
      exact .missing .bookmarkDescription rfl rfl
    | case7 n found index _ queue hqueue description rest ih =>
      exact (passes_bookmark hqueue description found).located (ih h)

/-- The parts of a file in their order; each of them can be got through, whatever was read
before. -/
theorem locates_readSession : Locates readSession := by
  refine (locates_nextLine .sessionName).bind fun name _ => ?_
  refine (locates_numberLine .queueCount (fun _ => rfl) fun _ => rfl).bind fun queueCount _ => ?_
  refine (locates_readMany fun _ _ => locates_nextLine .queueEntry).bind fun queue _ => ?_
  refine (locates_numberLine .assetCount (fun _ => rfl) fun _ => rfl).bind fun assetCount _ => ?_
  refine (locates_readMany fun _ _ => locates_untilBlank .assetName).bind fun assets _ => ?_
  refine (locates_numberLine .variableCount (fun _ => rfl) fun _ => rfl).bind
    fun variableCount hcount => ?_
  obtain ⟨_, hcount⟩ := hcount
  refine (locates_readMany fun i hi => locates_readVariable ?_).bind fun tracked _ => ?_
  · have hle := le_of_reads_numberLine hcount
    omega
  rw [← bind_assoc]
  refine (locates_list (judged_mapM (readChange_cases tracked)) .changePair).bind
    fun changes _ => ?_
  dsimp only
  rw [← bind_assoc]
  refine (locates_list (judged_readSnapshots _ .start) .snapshot).bind fun snapshots _ => ?_
  refine (locates_readMoreBookmarks .empty).bind fun bookmarks _ => ?_
  refine .line .endMarker (by decide : IsLine endMarker) ?_ fun last => ?_
  · rw [if_neg (not_not_intro rfl)]
    exact (Locates.pure _).begins
  · split
    · exact .inr ⟨_, stop_bind _ _, rfl, rfl⟩
    · exact .inl (.pure _)

/-! ### Files -/

/-- Whether some lines are the first ones of a file that can be read. -/
def Completable (lines : List (List UInt8)) : Prop :=
  ∃ more s, ofFile (lines.flatMap (· ++ [10]) ++ more) = .ok s

/-- Whether a fault is in the line at an index: the fault tells what stands there, and this is the
first line with which a file cannot be completed any more. -/
structure BreaksAt (lines : List (List UInt8)) (i : Nat) (fault : LayoutFault) : Prop where
  quotes : ∃ line text, lines[i]? = some line ∧ lineText? line = some text ∧ fault.Quotes text
  completable : Completable (lines.take i)
  not_completable : ¬ Completable (lines.take (i + 1))

/-- Whether an empty line stands at an index. -/
def BlankAt (lines : List (List UInt8)) (i : Nat) : Prop :=
  lines[i]?.bind lineText? = some ""

/-- A blank line is one that is read as the empty text. -/
theorem blankAt_iff {lines : List (List UInt8)} {i : Nat} :
    BlankAt lines i ↔ (lines.map lineText?)[i]? = some (some "") := by
  rw [BlankAt, List.getElem?_map]
  cases lines[i]? with
  | none => simp
  | some line => simp

section

variable {bytes : List UInt8} {i : Nat} {front : List String}

/-- Lines of a file in front of other bytes are lines again. -/
theorem ofFile_take (bytes : List UInt8) (i : Nat) (more : List UInt8) :
    ofFile (((splitLines (· == 10) bytes).take i).flatMap (· ++ [10]) ++ more) =
      ofLines (((splitLines (· == 10) bytes).take i).map lineText? ++
        (splitLines (· == 10) more).map lineText?) := by
  have hfeed : ∀ line ∈ (splitLines (· == 10) bytes).take i, ∀ u ∈ line, (u == 10) = false :=
    fun line hline => not_feed_of_mem_splitLines (List.mem_of_mem_take hline)
  rw [ofFile, splitLines_flatMap_append rfl hfeed, List.map_append]

/-- What reading can begin with is completed by the bytes of the lines that it needs. -/
theorem completable_of_begins (h : Begins readSession front)
    (hfront : ((splitLines (· == 10) bytes).take i).map lineText? = front.map some) :
    Completable ((splitLines (· == 10) bytes).take i) := by
  obtain ⟨more, s, hmore, hreads⟩ := h
  refine ⟨(more.map fun line => line.toList.flatMap String.utf8EncodeChar).flatMap (· ++ [10]), s,
    ?_⟩
  have htexts : (more.map fun line => line.toList.flatMap String.utf8EncodeChar).map lineText? =
      more.map some := by
    rw [List.map_map]
    exact List.map_congr_left fun line hline => lineText?_utf8 (hmore line hline)
  rw [ofFile_take, hfront, splitLines_flatMap rfl, htexts, ← List.map_append, ofLines]
  · have hrun := hreads [] 0
    rw [List.append_nil] at hrun
    rw [hrun]
    rfl
  · intro line hline
    obtain ⟨text, htext, rfl⟩ := List.mem_map.mp hline
    exact (hmore text htext).not_feed_utf8

/-- What is not got through is not completed by any bytes. -/
theorem not_completable_of_rejects (h : Rejects readSession front)
    (hfront : ((splitLines (· == 10) bytes).take i).map lineText? = front.map some) :
    ¬ Completable ((splitLines (· == 10) bytes).take i) := by
  rintro ⟨more, s, hread⟩
  rw [ofFile_take, hfront, ofLines] at hread
  cases hrun : readSession ⟨front.map some ++ (splitLines (· == 10) more).map lineText?, 0⟩ with
  | error e =>
    rw [hrun] at hread
    cases hread
  | ok p => exact h _ 0 p hrun

/-- A line at fault for the reader is the first one with which the bytes cannot be completed. -/
theorem FaultAt.breaksAt {line : String} {behind : List (Option String)} {fault : LayoutFault}
    (h : FaultAt readSession front line fault)
    (hlines : (splitLines (· == 10) bytes).map lineText? =
      front.map some ++ some line :: behind) :
    BreaksAt (splitLines (· == 10) bytes) front.length fault := by
  have hfront (k : Nat) : ((splitLines (· == 10) bytes).take k).map lineText? =
      (front.map some ++ some line :: behind).take k := by
    rw [List.map_take, hlines]
  refine ⟨?_, completable_of_begins h.begins ?_, not_completable_of_rejects h.rejects ?_⟩
  · have hget : ((splitLines (· == 10) bytes).map lineText?)[front.length]? =
        some (some line) := by
      rw [hlines, List.getElem?_append_right (by simp)]
      simp
    rw [List.getElem?_map] at hget
    obtain ⟨raw, hraw, htext⟩ := Option.map_eq_some_iff.mp hget
    exact ⟨raw, line, hraw, htext, h.quotes⟩
  · rw [hfront, List.take_left' (List.length_map _)]
  · have hsplit : front.map some ++ some line :: behind = (front ++ [line]).map some ++ behind := by
      simp
    rw [hfront, hsplit, List.take_left' (by simp)]

end

/-- **Where a file is at fault.** If the file ends too early, the line that is reported is the one
behind the last. Otherwise it is the first line with which a file cannot be completed any more, and
the fault tells what stands there, with one exception: if that line is one of the changes or of the
snapshots, the empty line that ends their list is reported in its place. -/
theorem ofFile_fault {bytes : List UInt8} {n : Nat} {fault : LayoutFault}
    (h : ofFile bytes = .error (.layout n fault)) :
    let lines := splitLines (· == 10) bytes
    (∀ part, fault = .missing part → n = lines.length + 1) ∧
    ((∀ part, fault ≠ .missing part) → ∃ i, BreaksAt lines i fault ∧
      (fault.inList = false → n = i + 1) ∧
      (fault.inList = true → i + 1 < n ∧ BlankAt lines (n - 1) ∧
        ∀ j, i < j → j + 1 < n → ¬ BlankAt lines j)) := by
  intro lines
  have hread : readSession ⟨lines.map lineText?, 0⟩ = .error (.layout n fault) := by
    rw [ofFile, ofLines] at h
    cases hrun : readSession ⟨lines.map lineText?, 0⟩ with
    | error e =>
      rw [hrun] at h
      cases h
      rfl
    | ok p =>
      rw [hrun] at h
      cases h
  cases locates_readSession.located _ n fault hread with
  | missing part hfault hn =>
    refine ⟨fun _ _ => ?_, fun hother => absurd hfault (hother part)⟩
    rw [hn, List.length_map, Nat.zero_add]
  | line front line behind hlines hfault hlist hn =>
    refine ⟨fun part hmissing => ?_, fun _ => ⟨front.length, hfault.breaksAt hlines, fun _ => ?_,
      fun hin => ?_⟩⟩
    · exact absurd hfault.quotes (by rw [hmissing]; exact id)
    · rw [hn, Nat.zero_add]
    · rw [hlist] at hin
      cases hin
  | list front line more behind hlines hfault hlist hmore hn =>
    refine ⟨fun part hmissing => ?_, fun _ => ⟨front.length, hfault.breaksAt hlines, fun hout => ?_,
      fun _ => ?_⟩⟩
    · exact absurd hfault.quotes (by rw [hmissing]; exact id)
    · rw [hlist] at hout
      cases hout
    · dsimp only at hlines hn
      have hsplit : lines.map lineText? =
          (front ++ line :: more).map some ++ some "" :: behind := by
        simp [hlines]
      have hlength : n - 1 = ((front ++ line :: more).map some).length := by
        simp only [List.length_map, List.length_append, List.length_cons]
        omega
      refine ⟨by omega, ?_, fun j hij hjn hblank => ?_⟩
      · rw [blankAt_iff, hsplit, hlength, List.getElem?_append_right (Nat.le_refl _), Nat.sub_self]
        rfl
      · -- what stands between the line at fault and the end of the list is not empty
        obtain ⟨k, rfl⟩ : ∃ k, j = front.length + (k + 1) := ⟨j - front.length - 1, by omega⟩
        rw [blankAt_iff, hsplit, List.getElem?_append_left (by omega), List.getElem?_map,
          List.getElem?_append_right (Nat.le_add_right _ _), Nat.add_sub_cancel_left,
          List.getElem?_cons_succ] at hblank
        obtain ⟨text, htext, hempty⟩ := Option.map_eq_some_iff.mp hblank
        exact hmore text (List.mem_of_getElem? htext) (Option.some.inj hempty)

/-- A variable with an index that is not its own. -/
theorem ofFile_fault_index :
    let bytes := "kept\n0\n0\n1\nlamp\n7\n".toUTF8.toList
    ofFile bytes = .error (.layout 6 (.badVariableIndex 0 7)) ∧
      BreaksAt (splitLines (· == 10) bytes) 5 (.badVariableIndex 0 7) := by
  intro bytes
  have hfault : ofFile bytes = .error (.layout 6 (.badVariableIndex 0 7)) := by
    dsimp only [bytes]
    rw [toList_toUTF8]
    decide +kernel
  obtain ⟨i, hbreaks, hline, -⟩ := (ofFile_fault hfault).2 nofun
  obtain rfl : i = 5 := by
    have hn := hline rfl
    omega
  exact ⟨hfault, hbreaks⟩

/-- Among the changes is a line that is none, and the empty line behind it is reported. -/
theorem ofFile_fault_list :
    let bytes := "kept\n0\n0\n0\nx\n\n\n\nEND\n".toUTF8.toList
    ofFile bytes = .error (.layout 6 (.badPair "x")) ∧
      BlankAt (splitLines (· == 10) bytes) 5 ∧
      ¬ BreaksAt (splitLines (· == 10) bytes) 5 (.badPair "x") := by
  intro bytes
  have hblank : BlankAt (splitLines (· == 10) bytes) 5 := by
    dsimp only [bytes]
    rw [toList_toUTF8, BlankAt]
    decide +kernel
  refine ⟨?_, hblank, fun hbreaks => ?_⟩
  · dsimp only [bytes]
    rw [toList_toUTF8]
    decide +kernel
  · obtain ⟨line, text, hline, htext, hquotes⟩ := hbreaks.quotes
    rw [BlankAt, hline, Option.bind_some, htext] at hblank
    exact absurd (hquotes.symm.trans (Option.some.inj hblank)) (by decide)

end Session

end Gamebook
