import Gamebook.Page.Body

/-!
# Bodies in other places

The place of a definition matters for nothing but the reports about its body. Whatever is read, a
draft for another place differs from the draft for this one in the places of its reports only
(`Draft.run_relocate`), so that the page is the same, and the same is reported of it, each time at
the place it was read for (`Page.ofBody_relocate`).
-/

namespace Gamebook

open Script

/-- The same problem at another place. -/
def Diagnostic.relocate (span : Span) (d : Diagnostic) : Diagnostic :=
  { d with span }

namespace Draft

/-- The same draft for a definition at another place. -/
def relocate (origin : Span) (d : Draft) : Draft :=
  { d with origin, diagnostics := d.diagnostics.map (·.relocate origin) }

variable (o : Span) (d : Draft)

@[simp] theorem page_relocate : (d.relocate o).page = d.page := rfl

@[simp] theorem verb_relocate : (d.relocate o).verb = d.verb := rfl

@[simp] theorem depth_relocate : (d.relocate o).depth = d.depth := rfl

/-! ### Reports and scopes -/

/-- A problem is reported of the definition at hand, so the new report is for the other place
too. -/
theorem report_relocate (near : List Char) (p : BodyProblem) :
    (d.relocate o).report near p = (d.report near p).relocate o := by
  simp only [report, relocate, List.map_append, List.map_singleton]
  rfl

/-- Looking through a script reports its errors one by one, each for the place of the definition. -/
theorem validate_relocate (near : List Char) (expression : String) :
    (d.relocate o).validate near expression = (d.validate near expression).relocate o := by
  rw [validate, validate]
  generalize (Chain.ofText expression).2 = errors
  induction errors generalizing d with
  | nil => rfl
  | cons e errors ih => rw [List.foldl_cons, List.foldl_cons, report_relocate, ih]

theorem addBlock_relocate (v : OpenVerb) (b : Block) :
    (d.relocate o).addBlock v b = ((d.addBlock v b).1.relocate o, (d.addBlock v b).2) :=
  rfl

/-- What is left without children does not depend on the place. -/
theorem leave_relocate (s : Scope) : (d.relocate o).leave s = (d.leave s).relocate o := by
  rw [leave, leave, page_relocate]
  split
  · exact report_relocate o d _ _
  · rfl

/-- The scopes that are left are the same ones. -/
theorem leaveImplied_relocate (scopes : List Scope) : (d.relocate o).leaveImplied scopes =
    ((d.leaveImplied scopes).1.relocate o, (d.leaveImplied scopes).2) := by
  induction scopes generalizing d with
  | nil => rfl
  | cons s outer ih =>
    rw [leaveImplied, leaveImplied, leave_relocate]
    split
    · exact ih _
    · rfl

/-- Only the verb at hand says which of its scopes are implied. -/
theorem closeImplied_relocate : (d.relocate o).closeImplied = d.closeImplied.relocate o := by
  rw [closeImplied, closeImplied, verb_relocate]
  cases d.verb with
  | none => rfl
  | some v =>
    dsimp only
    rw [leaveImplied_relocate]
    rfl

/-- A verb is declared or refused by the page, and the page has no place. -/
theorem flushVerb_relocate : (d.relocate o).flushVerb = d.flushVerb.relocate o := by
  rw [flushVerb, flushVerb, closeImplied_relocate]
  generalize d.closeImplied = d
  dsimp only
  rw [verb_relocate]
  cases d.verb with
  | none => rfl
  | some v =>
    dsimp only
    -- scopes that are left open are reported first
    have hopen : (if v.inner.isEmpty then d.relocate o
        else (d.relocate o).report [] .scopeNotClosed) =
          (if v.inner.isEmpty then d else d.report [] .scopeNotClosed).relocate o := by
      split
      · rfl
      · exact report_relocate o d _ _
    rw [hopen]
    generalize (if v.inner.isEmpty then d else d.report [] .scopeNotClosed) = d
    rw [page_relocate]
    cases d.page.addVerb ⟨v.names.headD "", v.names, v.root⟩ with
    | ok page => rfl
    | error e => exact report_relocate o { d with verb := none } _ _

/-! ### Statements -/

/-- A text goes to the verb at hand, or it is reported. -/
theorem text_relocate (cs : List Char) :
    (d.relocate o).text cs = ((d.text cs).1.relocate o, (d.text cs).2) := by
  rw [text, text]
  cases Text.Marker.textBlock.lengthAt? cs with
  | none =>
    dsimp only
    rw [report_relocate]
  | some n =>
    dsimp only
    rw [verb_relocate]
    cases d.verb with
    | some v => rfl
    | none =>
      dsimp only
      rw [report_relocate]

/-- An instruction is looked through, and goes to the verb at hand or is reported. -/
theorem instruction_relocate (cs : List Char) : (d.relocate o).instruction cs =
    ((d.instruction cs).1.relocate o, (d.instruction cs).2) := by
  rw [instruction, instruction]
  dsimp only
  generalize String.ofList _ = expression
  rw [validate_relocate, verb_relocate]
  cases (d.validate cs expression).verb with
  | some v => rfl
  | none =>
    dsimp only
    rw [report_relocate]

theorem pend_relocate (expression : String) (explicit : Bool) :
    (d.relocate o).pend expression explicit = (d.pend expression explicit).relocate o :=
  rfl

/-- Whether a condition stands above the verbs is told by the text behind it. -/
theorem condition_relocate (cs : List Char) : (d.relocate o).condition cs =
    ((d.condition cs).1.relocate o, (d.condition cs).2) := by
  rw [condition, condition]
  dsimp only
  generalize String.ofList _ = expression
  rw [validate_relocate, closeImplied_relocate]
  generalize (d.validate cs expression).closeImplied = d
  rw [verb_relocate]
  cases d.verb with
  | none => rfl
  | some v =>
    dsimp only
    rw [flushVerb_relocate, pend_relocate, addBlock_relocate]
    generalize (v.inner.isEmpty && declaresVerb _) = guards
    cases guards with
    | true => rfl
    | false => rfl

/-- The same names are read, and what is wrong with them is reported for the other place. -/
theorem declarations_relocate (names : List String) (cs : List Char) :
    (d.relocate o).declarations names cs =
      ((d.declarations names cs).1.relocate o, (d.declarations names cs).2) := by
  fun_induction declarations d names cs with
  | case1 d names rest hclose =>
    rw [declarations, hclose, report_relocate]
  | case2 d names rest n hclose _ _ hname ih =>
    rw [declarations, hclose]
    dsimp only
    rw [if_pos hname, report_relocate]
    exact ih
  | case3 d names rest n hclose _ _ hname ih =>
    rw [declarations, hclose]
    dsimp only
    rw [if_neg hname]
    exact ih
  | case4 d names cs hcs =>
    rw [declarations]
    exact hcs

/-- The same verb is opened under the same conditions. -/
theorem verbDeclaration_relocate (cs : List Char) : (d.relocate o).verbDeclaration cs =
    ((d.verbDeclaration cs).1.relocate o, (d.verbDeclaration cs).2) := by
  rw [verbDeclaration, verbDeclaration]
  split
  · rw [declarations_relocate]
    rcases d.declarations [] cs with ⟨d, _ | ⟨names, behind⟩⟩
    · rfl
    · dsimp only
      rw [flushVerb_relocate]
      split
      · rfl
      · rfl
  · rw [report_relocate]

/-- A closing brace ends the same scope. -/
theorem closeScope_relocate (cs : List Char) : (d.relocate o).closeScope cs =
    ((d.closeScope cs).1.relocate o, (d.closeScope cs).2) := by
  rw [closeScope, closeScope, closeImplied_relocate]
  generalize d.closeImplied = d
  dsimp only
  rw [verb_relocate]
  split
  case h_1 names root s outer _ =>
    rw [leave_relocate]
    generalize d.leave s = d
    split
    · rfl
    · rfl
  case h_2 =>
    rw [depth_relocate]
    split
    · rw [report_relocate]
    · rw [flushVerb_relocate]
      rfl

/-- A statement is read alike wherever the definition stands. -/
theorem step_relocate (c : Char) (rest : List Char) : (d.relocate o).step c rest =
    ((d.step c rest).1.relocate o, (d.step c rest).2) := by
  rw [step, step]
  split
  · rfl
  · split
    · exact text_relocate o d _
    · split
      · exact instruction_relocate o d _
      · split
        · exact condition_relocate o d _
        · split
          · exact verbDeclaration_relocate o d _
          · split
            · exact closeScope_relocate o d _
            · rw [report_relocate]

/-- So are all statements. -/
theorem run_relocate (cs : List Char) : (d.relocate o).run cs = (d.run cs).relocate o := by
  fun_induction run d cs with
  | case1 d => rw [run]
  | case2 d c rest d' n hstep ih =>
    rw [run, step_relocate, hstep]
    exact ih

/-- The end of a body declares the last verb, or reports what is left open. -/
theorem finish_relocate : (d.relocate o).finish = d.finish.relocate o := by
  rw [finish, finish, flushVerb_relocate, depth_relocate]
  split
  · rfl
  · exact report_relocate o d.flushVerb _ _

end Draft

/-- A body makes the same page wherever its definition stands, and the same is reported of it. -/
theorem Page.ofBody_relocate (page : Page) (body : String) (o o' : Span) :
    Page.ofBody page body o' =
      ((Page.ofBody page body o).1, (Page.ofBody page body o).2.map (·.relocate o')) := by
  have hstart : ({ page, origin := o' } : Draft) = Draft.relocate o' { page, origin := o } := rfl
  rw [ofBody, ofBody, hstart, Draft.run_relocate, Draft.finish_relocate]
  rfl

end Gamebook
