import Gamebook.Proofs.Script.Writing
import Gamebook.Proofs.Text.Parity

/-!
# Breaks at the end of an instruction

An instruction may end in marks `<`, one for each scope to leave. A mark that is escaped is part of
the action. Only the first of a row of marks can be, and it is if the number of backslashes in front
of it is odd (`bareMarks_eq`). What is split off are just the marks that are not escaped, except in
one case: behind an even number of backslashes, at least two, the first mark is taken for an escaped
one (`Instruction.ofText_breaks`).
-/

namespace Gamebook.Script

/-! ### Marks at the end of a text -/

/-- The number of marks in the row at the end of a text. -/
def marks (cs : List Char) : Nat :=
  (cs.reverse.takeWhile (· == '<')).length

/-- The text in front of the row of marks at its end. -/
def beforeMarks (cs : List Char) : List Char :=
  cs.take (cs.length - marks cs)

/-- The number of marks in the row at the end of a text that are not escaped. -/
def bareMarks (cs : List Char) : Nat :=
  (List.range (marks cs)).countP fun i => Text.comesTo cs ((beforeMarks cs).length + i)

theorem marks_append {front : List Char} (hfront : front.getLast? ≠ some '<') (n : Nat) :
    marks (front ++ List.replicate n '<') = n := by
  have hstop : front.reverse.takeWhile (· == '<') = [] := by
    rcases List.eq_nil_or_concat' front with rfl | ⟨before, c, rfl⟩
    · rfl
    · rw [List.reverse_concat, List.takeWhile_cons_of_neg]
      simpa using hfront
  rw [marks, List.reverse_append, List.reverse_replicate,
    List.takeWhile_append_of_pos fun c hc => beq_iff_eq.mpr (List.eq_of_mem_replicate hc), hstop,
    List.append_nil, List.length_replicate]

theorem beforeMarks_append {front : List Char} (hfront : front.getLast? ≠ some '<') (n : Nat) :
    beforeMarks (front ++ List.replicate n '<') = front := by
  rw [beforeMarks, marks_append hfront, List.length_append, List.length_replicate,
    Nat.add_sub_cancel, List.take_left]

/-- A text is what stands in front of its marks, and the marks. -/
theorem exists_marks (cs : List Char) :
    ∃ front n, front.getLast? ≠ some '<' ∧ cs = front ++ List.replicate n '<' := by
  induction cs using List.reverseRec with
  | nil => exact ⟨[], 0, by simp, rfl⟩
  | append_singleton cs c ih =>
    by_cases hc : c = '<'
    · obtain ⟨front, n, hfront, rfl⟩ := ih
      exact ⟨front, n + 1, hfront, by rw [hc, List.append_assoc, List.replicate_succ']⟩
    · exact ⟨cs ++ [c], 0, by simpa using hc, by simp⟩

/-- A mark behind some others is not escaped. -/
theorem backslashes_marks (front : List Char) (i : Nat) :
    Text.backslashes (front ++ List.replicate i '<') =
      if i = 0 then Text.backslashes front else 0 := by
  cases i with
  | zero => simp
  | succ i =>
    rw [List.replicate_succ', ← List.append_assoc, Text.backslashes_concat, if_neg (by decide),
      if_neg (Nat.succ_ne_zero i)]

/-- Of a row of marks only the first may be escaped. -/
theorem bareMarks_append {front : List Char} (hfront : front.getLast? ≠ some '<') (n : Nat) :
    bareMarks (front ++ List.replicate n '<') =
      if Even (Text.backslashes front) then n else n - 1 := by
  have hplace : ∀ i ∈ List.range n,
      Text.comesTo (front ++ List.replicate n '<') (front.length + i) =
        decide (i = 0 → Even (Text.backslashes front)) := by
    intro i hi
    have hlt : i < n := List.mem_range.mp hi
    have hsplit : front ++ List.replicate n '<' =
        (front ++ List.replicate i '<') ++ '<' :: List.replicate (n - i - 1) '<' := by
      rw [List.append_assoc, ← List.replicate_succ, List.replicate_append_replicate]
      congr 2
      omega
    have hplace : front.length + i = (front ++ List.replicate i '<').length := by simp
    rw [hsplit, hplace, Bool.eq_iff_iff, Text.comesTo_iff_even (by decide), backslashes_marks,
      decide_eq_true_eq]
    split
    next hzero => simp [hzero]
    next hzero => simp [hzero]
  rw [bareMarks, marks_append hfront, beforeMarks_append hfront, List.countP_congr fun i hi => by
    rw [hplace i hi]]
  cases n with
  | zero => simp
  | succ n =>
    rw [List.range_succ_eq_map, List.countP_cons, List.countP_map]
    by_cases heven : Even (Text.backslashes front)
    · simp [heven, Function.comp_def]
    · simp [heven, Function.comp_def]

/-- Of the marks at the end of a text all are breaks if the number of backslashes in front of them
is even, and all but the first if it is odd. -/
theorem bareMarks_eq (cs : List Char) : bareMarks cs =
    if Even (Text.backslashes (beforeMarks cs)) then marks cs else marks cs - 1 := by
  obtain ⟨front, n, hfront, rfl⟩ := exists_marks cs
  rw [bareMarks_append hfront, beforeMarks_append hfront, marks_append hfront]

/-! ### Splitting breaks off -/

/-- Whether marks stand behind an even number of backslashes, at least two. -/
def BehindEscapedBackslash (cs : List Char) : Prop :=
  0 < marks cs ∧ 0 < Text.backslashes (beforeMarks cs) ∧ Even (Text.backslashes (beforeMarks cs))

instance (cs : List Char) : Decidable (BehindEscapedBackslash cs) :=
  inferInstanceAs (Decidable (_ ∧ _ ∧ _))

/-- Read an action with some breaks behind it; a blank one is none. -/
def Instruction.withBreaks (action : List Char) (breaks : Nat) :
    Except (List (Located SyntaxError)) Instruction :=
  if Text.isBlank action then .ok ⟨none, breaks⟩
  else (parseAll Parser.action action).map fun a => ⟨some a, breaks⟩

/-- There is a backslash at the end of a text that ends in one. -/
theorem backslashes_pos_iff (cs : List Char) :
    0 < Text.backslashes cs ↔ cs.getLast? = some '\\' := by
  induction cs using List.reverseRec with
  | nil => simp [Text.backslashes]
  | append_singleton cs c _ =>
    rw [Text.backslashes_concat, List.getLast?_concat, Option.some_inj]
    split
    next hc => exact iff_of_true (Nat.succ_pos _) hc
    next hc => exact iff_of_false (Nat.lt_irrefl 0) hc

theorem trimEnd_eq_self {cs : List Char} (hend : ∀ c ∈ cs.getLast?, Text.isSpace c = false) :
    Text.trimEnd cs = cs := by
  rcases List.eq_nil_or_concat' cs with rfl | ⟨before, c, rfl⟩
  · rfl
  · have hspace : Text.isSpace c = false := hend c List.getLast?_concat
    rw [Text.trimEnd, List.reverse_concat, List.dropWhile_cons_of_neg (by simp [hspace]),
      List.reverse_cons, List.reverse_reverse]

/-- What is split off are the marks at the end, or all of them but the first if there is a backslash
in front of them. -/
theorem splitBreaks_of_trimEnd {body front : List Char} {n : Nat}
    (h : Text.trimEnd body = front ++ List.replicate n '<') (hfront : front.getLast? ≠ some '<') :
    splitBreaks body =
      if 0 < Text.backslashes front ∧ 0 < n then (front ++ ['<'], n - 1) else (front, n) := by
  have hmarks := marks_append hfront n
  have hfrontEq := beforeMarks_append hfront n
  rw [beforeMarks, hmarks] at hfrontEq
  rw [marks] at hmarks
  rw [splitBreaks, h, hmarks, hfrontEq]
  simp only [backslashes_pos_iff]

theorem splitBreaks_append {front : List Char} (hfront : front.getLast? ≠ some '<') {n : Nat}
    (hend : ∀ c ∈ (front ++ List.replicate n '<').getLast?, Text.isSpace c = false) :
    splitBreaks (front ++ List.replicate n '<') =
      if 0 < Text.backslashes front ∧ 0 < n then (front ++ ['<'], n - 1) else (front, n) :=
  splitBreaks_of_trimEnd (trimEnd_eq_self hend) hfront

/-- The text in front of the marks that are not escaped, and their number. -/
theorem take_bareMarks_append {front : List Char} (hfront : front.getLast? ≠ some '<') (n : Nat) :
    let body := front ++ List.replicate n '<'
    (body.take (body.length - bareMarks body), bareMarks body) =
      if ¬ Even (Text.backslashes front) ∧ 0 < n then (front ++ ['<'], n - 1) else (front, n) := by
  intro body
  have hlength : body.length = front.length + n := by simp [body]
  have hall : body.take (body.length - n) = front := by
    rw [hlength, Nat.add_sub_cancel]
    exact List.take_left
  rw [bareMarks_append hfront]
  by_cases heven : Even (Text.backslashes front)
  · rw [if_pos heven, if_neg (fun h => h.1 heven), hall]
  · rw [if_neg heven]
    cases n with
    | zero => rw [if_neg (fun h => Nat.lt_irrefl 0 h.2), hall]
    | succ n =>
      have hone : body = (front ++ ['<']) ++ List.replicate n '<' := by
        rw [List.append_assoc, List.singleton_append, ← List.replicate_succ]
      have hlengthOne : body.length - (n + 1 - 1) = (front ++ ['<']).length := by
        rw [hlength, List.length_append, List.length_singleton]
        omega
      rw [if_pos ⟨heven, Nat.succ_pos n⟩, hlengthOne, hone, List.take_left]

/-- The breaks of an instruction that does not end in white space are the marks at its end that are
not escaped, and what stands in front of these is its action; only if the marks stand behind an even
number of backslashes, at least two, the first of them is left in the action. -/
theorem Instruction.ofText_breaks {body : List Char}
    (hend : ∀ c ∈ body.getLast?, Text.isSpace c = false) :
    let breaks := bareMarks body
    let action := body.take (body.length - breaks)
    (breaks = if Even (Text.backslashes (beforeMarks body)) then marks body else marks body - 1) ∧
    (splitBreaks body = (action, breaks) ↔ ¬ BehindEscapedBackslash body) ∧
    (¬ BehindEscapedBackslash body →
      Instruction.ofText body = Instruction.withBreaks action breaks) := by
  intro breaks action
  have hsplit : splitBreaks body = (action, breaks) ↔ ¬ BehindEscapedBackslash body := by
    obtain ⟨front, n, hfront, rfl⟩ := exists_marks body
    rw [BehindEscapedBackslash, marks_append hfront, beforeMarks_append hfront,
      splitBreaks_append hfront hend, take_bareMarks_append hfront n]
    -- an odd number of backslashes is at least one
    have hodd : ¬ Even (Text.backslashes front) → 0 < Text.backslashes front :=
      fun h => Nat.pos_of_ne_zero fun hzero => h (hzero ▸ ⟨0, rfl⟩)
    have hne : 0 < n → (front ++ ['<'], n - 1) ≠ (front, n) := fun hn heq => by
      have hbreaks : n - 1 = n := congrArg Prod.snd heq
      omega
    by_cases hn : 0 < n
    · by_cases heven : Even (Text.backslashes front)
      · by_cases hpos : 0 < Text.backslashes front
        · simp [hn, heven, hpos, hne hn]
        · simp [heven, hpos]
      · simp [hn, heven, hodd heven]
    · simp [hn]
  refine ⟨bareMarks_eq body, hsplit, fun h => ?_⟩
  have hread : Instruction.ofText body =
      Instruction.withBreaks (splitBreaks body).1 (splitBreaks body).2 := rfl
  rw [hread, hsplit.mpr h]

/-- In front of two marks stands an escaped backslash and the backslash that escapes the first mark,
so only the second one is a break. -/
theorem Instruction.ofText_breaks_mixed :
    let body := "x=a\\\\\\<<".toList
    (∀ c ∈ body.getLast?, Text.isSpace c = false) ∧ ¬ BehindEscapedBackslash body ∧
      bareMarks body = 1 ∧
      Instruction.ofText body = Instruction.withBreaks "x=a\\\\\\<".toList 1 ∧
      Instruction.ofText body =
        .ok ⟨some (.change (some (.ofPrimary (.atom "x"))) .assign
          (some (.ofPrimary (.atom "a\\<")))), 1⟩ := by
  intro body
  have hend : ∀ c ∈ body.getLast?, Text.isSpace c = false := by
    rintro c ⟨rfl⟩
    decide +kernel
  have hslip : ¬ BehindEscapedBackslash body := by decide +kernel
  have hbreaks : bareMarks body = 1 := by decide +kernel
  obtain ⟨-, -, hread⟩ := Instruction.ofText_breaks hend
  refine ⟨hend, hslip, hbreaks, ?_, by decide +kernel⟩
  rw [hread hslip, hbreaks]
  rfl

/-- A mark behind an escaped backslash is not escaped, but stays in the action, which cannot be read
with it. -/
theorem Instruction.ofText_break_kept :
    let body := "x=a\\\\<".toList
    (∀ c ∈ body.getLast?, Text.isSpace c = false) ∧ bareMarks body = 1 ∧
      splitBreaks body = (body, 0) ∧
      Instruction.withBreaks "x=a\\\\".toList 1 =
        .ok ⟨some (.change (some (.ofPrimary (.atom "x"))) .assign
          (some (.ofPrimary (.atom "a\\")))), 1⟩ ∧
      Instruction.ofText body ≠ Instruction.withBreaks "x=a\\\\".toList 1 := by
  refine ⟨?_, by decide +kernel⟩
  rintro c ⟨rfl⟩
  decide +kernel

end Gamebook.Script
