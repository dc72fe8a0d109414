import Gamebook.Page.Body
import Mathlib.Data.List.Perm.Subperm

/-!
# Drafts that settle

Much of what happens while a body is read brings nothing to the page. Problems are reported, the
verb at hand leaves scopes, and in the end it is declared. Whatever of this happens, a draft
*settles* (`Draft.Settles`): no block comes or goes, the conditions above the verbs stay, and a verb
stands where it stood, at hand or declared.

Most parts do even less: they only report (`Draft.OnlyReports`). The two that do more are told apart
by the draft that they leave (`Draft.closeImplied_dropWhile`, `Draft.flushVerb_adopt`).
-/

namespace Gamebook

open Script

/-! ### Verbs that are declared -/

/-- The verb that is declared when its body ends. -/
def OpenVerb.declared (v : OpenVerb) : Verb :=
  ⟨v.names.headD "", v.names, v.root⟩

/-- Some verbs and one more, unless a name of that is taken. -/
def Verb.adopt (verbs : List Verb) (v : Verb) : List Verb :=
  if v.names.any fun name => verbs.any (·.answersTo name) then verbs else verbs ++ [v]

/-- At most the one verb is added, and at the end. -/
theorem Verb.adopt_cases (verbs : List Verb) (v : Verb) :
    Verb.adopt verbs v = verbs ∨ Verb.adopt verbs v = verbs ++ [v] := by
  rw [Verb.adopt]
  split
  · exact .inl rfl
  · exact .inr rfl

/-- A verb is declared on a page if its names are free. -/
theorem Page.addVerb_eq (p : Page) (v : Verb) :
    p.addVerb v = .ok { p with verbs := Verb.adopt p.verbs v } ∨
      ∃ e, p.addVerb v = .error e ∧ Verb.adopt p.verbs v = p.verbs := by
  have htaken (name : String) :
      (p.findVerb? name).isSome = p.verbs.any (·.answersTo name) := by
    rw [Bool.eq_iff_iff, findVerb?, List.find?_isSome, List.any_eq_true]
  rw [addVerb, Verb.adopt]
  simp only [htaken]
  cases hfind : v.names.find? fun name => p.verbs.any (·.answersTo name) with
  | some name =>
    refine .inr ⟨_, rfl, if_pos (List.any_eq_true.mpr ⟨name, ?_, ?_⟩)⟩
    · exact List.mem_of_find?_eq_some hfind
    · exact List.find?_some (p := fun name => p.verbs.any (·.answersTo name)) hfind
  | none =>
    refine .inl (congrArg (fun verbs => Except.ok { p with verbs }) (if_neg ?_).symm)
    rw [List.any_eq_true]
    rintro ⟨name, hname, hany⟩
    exact List.find?_eq_none.mp hfind name hname hany

namespace Draft

/-- Where no declaration begins, nothing more is declared. -/
theorem declarations_eq {d : Draft} {names : List String} {cs : List Char}
    (h : ∀ rest, cs ≠ '[' :: ':' :: rest) : d.declarations names cs = (d, some (names, cs)) := by
  rw [declarations]
  exact h

/-! ### Reporting -/

/-- Whether all that happened from one draft to another is that problems were reported. -/
def OnlyReports (d d' : Draft) : Prop :=
  ∃ reports, d' = { d with diagnostics := d.diagnostics ++ reports }

namespace OnlyReports

theorem refl (d : Draft) : OnlyReports d d :=
  ⟨[], by rw [List.append_nil]⟩

theorem trans {d e f : Draft} (h : OnlyReports d e) (h' : OnlyReports e f) : OnlyReports d f := by
  obtain ⟨ds, rfl⟩ := h
  obtain ⟨es, rfl⟩ := h'
  exact ⟨ds ++ es, by rw [List.append_assoc]⟩

theorem report (d : Draft) (near : List Char) (p : BodyProblem) : OnlyReports d (d.report near p) :=
  ⟨_, rfl⟩

/-- Parsing an expression leaves nothing behind but a report for each of its errors. -/
theorem validate (d : Draft) (near : List Char) (expression : String) :
    OnlyReports d (d.validate near expression) := by
  rw [Draft.validate]
  generalize (Chain.ofText expression).2 = errors
  induction errors generalizing d with
  | nil => exact refl d
  | cons e errors ih => exact (report d near _).trans (ih _)

/-- A scope that is left is reported, or passes in silence. -/
theorem leave (d : Draft) (s : Scope) : OnlyReports d (d.leave s) := by
  rw [Draft.leave]
  split
  · exact report d _ _
  · exact refl d

/-- The implied scopes are left one by one, each with what it has to report. -/
theorem leaveImplied (d : Draft) (scopes : List Scope) :
    OnlyReports d (d.leaveImplied scopes).1 := by
  induction scopes generalizing d with
  | nil => exact refl d
  | cons s outer ih =>
    rw [Draft.leaveImplied]
    split
    · exact (leave d s).trans (ih _)
    · exact refl d

/-- Reading the names of a declaration only reports what is wrong with them. -/
theorem declarations (d : Draft) (names : List String) (cs : List Char) :
    OnlyReports d (d.declarations names cs).1 := by
  induction d, names, cs using Draft.declarations.induct with
  | case1 d names rest hclose =>
    rw [Draft.declarations, hclose]
    exact report d ('[' :: ':' :: rest) .unmatchedBracket
  | case2 d names rest n hclose _ _ hname =>
    rename_i ih
    rw [Draft.declarations, hclose]
    dsimp only
    rw [if_pos hname]
    exact (report d _ _).trans ih
  | case3 d names rest n hclose _ _ hname =>
    rename_i ih
    rw [Draft.declarations, hclose]
    dsimp only
    rw [if_neg hname]
    exact ih
  | case4 d names cs hcs =>
    rw [declarations_eq hcs]
    exact refl d

variable {d d' : Draft}

/-- Reports touch no page. -/
theorem page_eq (h : OnlyReports d d') : d'.page = d.page := by
  obtain ⟨reports, rfl⟩ := h
  rfl

/-- Nor do they touch the verb at hand. -/
theorem verb_eq (h : OnlyReports d d') : d'.verb = d.verb := by
  obtain ⟨reports, rfl⟩ := h
  rfl

end OnlyReports

/-! ### Ends of scopes and of verbs -/

/-- The innermost scopes are left as long as they are implied. -/
theorem leaveImplied_snd (d : Draft) (scopes : List Scope) :
    (d.leaveImplied scopes).2 = scopes.dropWhile (·.implied) := by
  induction scopes generalizing d with
  | nil => rfl
  | cons s outer ih =>
    rw [leaveImplied, List.dropWhile_cons]
    split
    · exact ih _
    · rfl

/-- Leaving the implied scopes of the verb at hand reports, and nothing else happens. -/
theorem closeImplied_dropWhile (d : Draft) : ∃ reports, d.closeImplied = { d with
    diagnostics := d.diagnostics ++ reports
    verb := d.verb.map fun v => { v with inner := v.inner.dropWhile (·.implied) } } := by
  rw [closeImplied]
  cases hv : d.verb with
  | none =>
    refine ⟨[], ?_⟩
    dsimp only
    rw [Option.map_none, ← hv, List.append_nil]
  | some v =>
    obtain ⟨ds, hds⟩ := OnlyReports.leaveImplied d v.inner
    refine ⟨ds, ?_⟩
    dsimp only
    rw [leaveImplied_snd, hds, Option.map_some]

/-- Closing what is implied drops the implied scopes in front, and no more of the verb. -/
theorem verb_closeImplied (d : Draft) : d.closeImplied.verb =
    d.verb.map fun v => { v with inner := v.inner.dropWhile (·.implied) } := by
  obtain ⟨reports, h⟩ := closeImplied_dropWhile d
  rw [h]

/-- The page knows nothing of scopes that are open. -/
theorem page_closeImplied (d : Draft) : d.closeImplied.page = d.page := by
  obtain ⟨reports, h⟩ := closeImplied_dropWhile d
  rw [h]

/-- The end of a verb declares it, unless a name of it is taken. -/
theorem flushVerb_adopt (d : Draft) : ∃ reports, d.flushVerb = { d with
    page := { d.page with
      verbs := d.verb.elim d.page.verbs fun v => Verb.adopt d.page.verbs v.declared }
    diagnostics := d.diagnostics ++ reports
    verb := none } := by
  obtain ⟨ds, h⟩ := closeImplied_dropWhile d
  rw [flushVerb, h]
  dsimp only
  cases hv : d.verb with
  | none => exact ⟨ds, rfl⟩
  | some o =>
    rw [Option.map_some, Option.elim_some]
    generalize o.inner.dropWhile (·.implied) = inner
    -- scopes that are left open are reported first
    have hreport (e : Draft) :
        OnlyReports e (if inner.isEmpty then e else e.report [] .scopeNotClosed) := by
      split
      · exact .refl e
      · exact .report e [] .scopeNotClosed
    obtain ⟨es, hes⟩ := hreport { d with
      diagnostics := d.diagnostics ++ ds, verb := some { o with inner } }
    dsimp only
    rw [hes]
    dsimp only
    rcases d.page.addVerb_eq ⟨o.names.headD "", o.names, o.root⟩ with hadd | ⟨e, hadd, hsame⟩
    · rw [hadd, List.append_assoc]
      exact ⟨ds ++ es, rfl⟩
    · rw [hadd, OpenVerb.declared, hsame, List.append_assoc]
      dsimp only [Draft.report]
      rw [List.append_assoc]
      exact ⟨_, rfl⟩

/-- Whether its names were free or not, the verb is no longer at hand. -/
theorem verb_flushVerb (d : Draft) : d.flushVerb.verb = none := by
  obtain ⟨reports, h⟩ := flushVerb_adopt d
  rw [h]

/-! ### Settling -/

/-- The roots of the verb at hand and of those that are declared. -/
def roots (d : Draft) : List Nat :=
  d.verb.toList.map (·.root) ++ d.page.verbs.map (·.root)

/-- What is known of one draft and another if in between problems were reported, scopes of the verb
at hand were left, or the verb was declared or refused. -/
structure Settles (d d' : Draft) : Prop where
  name : d'.page.name = d.page.name
  defaults : d'.page.defaults = d.page.defaults
  blocks : d'.page.blocks = d.page.blocks
  /-- Nothing that was reported is taken back. -/
  reports : d.diagnostics <+: d'.diagnostics
  pending : d'.pending = d.pending
  depth : d'.depth = d.depth
  /-- A verb that is still at hand was so before, in these scopes and perhaps in more. -/
  verb : ∀ v', d'.verb = some v' →
    ∃ v, d.verb = some v ∧ v'.names = v.names ∧ v'.root = v.root ∧ v'.inner <:+ v.inner
  /-- A verb that is new on the page was at hand before. -/
  verbs : ∀ v ∈ d'.page.verbs, v ∈ d.page.verbs ∨
    ∃ o, d.verb = some o ∧ v.names = o.names ∧ v.root = o.root
  /-- No verb is there twice, at hand and declared. -/
  roots : d'.roots.Subperm d.roots

namespace Settles

variable {d e f : Draft}

/-- Reporting is the least that settles: the page and the verb stay. -/
theorem of_onlyReports (h : OnlyReports d e) : Settles d e := by
  obtain ⟨reports, rfl⟩ := h
  exact ⟨rfl, rfl, rfl, List.prefix_append _ _, rfl, rfl,
    fun v hv => ⟨v, hv, rfl, rfl, List.suffix_refl _⟩, fun _ => .inl, .refl _⟩

theorem refl (d : Draft) : Settles d d :=
  of_onlyReports (.refl d)

theorem trans (h : Settles d e) (h' : Settles e f) : Settles d f where
  name := h'.name.trans h.name
  defaults := h'.defaults.trans h.defaults
  blocks := h'.blocks.trans h.blocks
  reports := h.reports.trans h'.reports
  pending := h'.pending.trans h.pending
  depth := h'.depth.trans h.depth
  verb v'' hv'' := by
    obtain ⟨v', hv', hnames, hroot, hinner⟩ := h'.verb v'' hv''
    obtain ⟨v, hv, hnames', hroot', hinner'⟩ := h.verb v' hv'
    exact ⟨v, hv, hnames.trans hnames', hroot.trans hroot', hinner.trans hinner'⟩
  verbs v hv := by
    rcases h'.verbs v hv with hv | ⟨o', ho', hnames, hroot⟩
    · exact h.verbs v hv
    · obtain ⟨o, ho, hnames', hroot', -⟩ := h.verb o' ho'
      exact .inr ⟨o, ho, hnames.trans hnames', hroot.trans hroot'⟩
  roots := h'.roots.trans h.roots

/-- The verb at hand goes on in some of the scopes around. -/
theorem setInner {v : OpenVerb} (hv : d.verb = some v) {inner : List Scope}
    (hinner : inner <:+ v.inner) : Settles d { d with verb := some { v with inner } } := by
  refine ⟨rfl, rfl, rfl, List.prefix_refl _, rfl, rfl, ?_, fun _ => .inl, ?_⟩
  · rintro v' ⟨⟩
    exact ⟨v, hv, rfl, rfl, hinner⟩
  · rw [Draft.roots, Draft.roots, hv]
    exact .refl _

/-- What is left of the scopes is a suffix of them. -/
theorem closeImplied (d : Draft) : Settles d d.closeImplied := by
  obtain ⟨reports, h⟩ := closeImplied_dropWhile d
  rw [h]
  cases hv : d.verb with
  | none =>
    rw [Option.map_none, ← hv]
    exact of_onlyReports ⟨reports, rfl⟩
  | some v =>
    exact (setInner hv (List.dropWhile_suffix _)).trans (of_onlyReports ⟨reports, rfl⟩)

/-- The verb moves to the page or is dropped; either way its root is counted once. -/
theorem flushVerb (d : Draft) : Settles d d.flushVerb := by
  obtain ⟨reports, h⟩ := flushVerb_adopt d
  rw [h]
  refine ⟨rfl, rfl, rfl, List.prefix_append _ _, rfl, rfl, ?_, ?_, ?_⟩
  · rintro v ⟨⟩
  · intro v hv
    cases ho : d.verb with
    | none =>
      rw [ho] at hv
      exact .inl hv
    | some o =>
      rw [ho, Option.elim_some] at hv
      rcases Verb.adopt_cases d.page.verbs o.declared with heq | heq
      · exact .inl (heq ▸ hv)
      · rw [heq] at hv
        refine (List.mem_append.mp hv).imp_right fun hv => ?_
        rw [List.mem_singleton.mp hv]
        exact ⟨o, rfl, rfl, rfl⟩
  · rw [Draft.roots, Draft.roots]
    cases ho : d.verb with
    | none => exact .refl _
    | some o =>
      rw [Option.elim_some]
      rcases Verb.adopt_cases d.page.verbs o.declared with heq | heq
      · rw [heq]
        exact (List.sublist_append_right _ _).subperm
      · rw [heq, Option.toList_none, List.map_nil, List.nil_append, List.map_append]
        exact List.perm_append_comm.subperm

/-- The end of a page flushes its last verb, and may report that the top level is open. -/
theorem finish (d : Draft) : Settles d d.finish := by
  rw [Draft.finish]
  split
  · exact flushVerb d
  · exact (flushVerb d).trans (of_onlyReports (.report _ [] .topLevelNotClosed))

end Settles

end Draft

end Gamebook
