import Gamebook.Proofs.Page.Declared
import Gamebook.Proofs.Script.Complaints

/-!
# Scripts on pages

Every script is looked through before it gets onto a page, and so is every condition that comes into
scope above the verbs. If no error is reported of a body, none of the scripts of its page has one,
those that are made of several conditions included (`Page.clean_ofBody`). The root of a verb is one
of these scripts (`Page.rooted_ofBody`).
-/

namespace Gamebook

open Script

namespace Draft

variable {d e d' : Draft}

/-! ### Scripts that are checked -/

/-- Whether an error was reported. -/
def Failed (d : Draft) : Prop :=
  ∃ x ∈ d.diagnostics, x.isError = true

/-- Whether a script has no errors, as far as none was reported. -/
def Checked (d : Draft) (expression : String) : Prop :=
  d.Failed ∨ Clean expression

theorem Failed.settle (h : d.Failed) (hd : Settles d e) : e.Failed := by
  obtain ⟨x, hx, herror⟩ := h
  exact ⟨x, hd.reports.subset hx, herror⟩

theorem Change.failed {c : Char} {rest : List Char} {a : Option Above}
    (hchange : Change d c rest a e d') (h : e.Failed) : d'.Failed := by
  cases hchange with
  | nothing | put | pend | close | opened => exact h

/-- What is reported is not taken back. -/
theorem Failed.step (h : d.Failed) (c : Char) (rest : List Char) : (d.step c rest).1.Failed := by
  obtain ⟨e, hsettles, hchange⟩ := stepped_step d c rest
  exact hchange.failed (h.settle hsettles)

theorem Checked.settle {expression : String} (h : d.Checked expression) (hd : Settles d e) :
    e.Checked expression :=
  h.imp_left fun hfailed => hfailed.settle hd

theorem checked_empty (d : Draft) : d.Checked "" :=
  .inr clean_empty

/-- A script that was looked through is checked. -/
theorem checked_validate (d : Draft) (near : List Char) (expression : String) :
    (d.validate near expression).Checked expression := by
  by_cases hclean : Clean expression
  · exact .inr hclean
  · -- the first error is reported, and stays so
    obtain ⟨e, errors, herrors⟩ := List.exists_cons_of_ne_nil hclean
    have hreported : (d.report near (.badExpression expression e.value)).Failed :=
      ⟨_, List.mem_append_right _ List.mem_cons_self, rfl⟩
    have hmore : ∀ (errors : List (Located SyntaxError)) (d : Draft), d.Failed →
        (errors.foldl (fun d e => d.report near (.badExpression expression e.value)) d).Failed := by
      intro errors
      induction errors with
      | nil => exact fun d hd => hd
      | cons e errors ih =>
        exact fun d hd => ih _ (hd.settle (.of_onlyReports (.report d near _)))
    rw [Draft.validate, herrors]
    exact .inl (hmore errors _ hreported)

/-- What a statement puts into a verb is checked, if it is a script. -/
theorem Puts.checked {c : Char} {rest : List Char} {v : OpenVerb} {b : Block} {scope : Option Bool}
    (h : Puts d c rest e v b scope) (hb : b.isExecuted) : e.Checked b.expression := by
  cases h with
  | text => cases hb
  | instruction _ hvalidate => exact (checked_validate d _ _).settle hvalidate
  | condition _ hvalidate => exact (checked_validate d _ _).settle hvalidate
  | otherwise => exact checked_empty e

/-! ### Scripts without errors -/

/-- What holds of a draft as long as no error was reported: no script in it has one. -/
structure Faultless (d : Draft) : Prop where
  blocks : d.page.EveryScript d.Checked
  pending : ∀ p ∈ d.pending, d.Checked p.expression

theorem Faultless.settle (h : d.Faultless) (hd : Settles d e) : e.Faultless where
  blocks := (h.blocks.of_blocks_eq hd.blocks).imp fun _ hchecked => hchecked.settle hd
  pending p hp := (h.pending p (hd.pending ▸ hp)).settle hd

/-- Conditions that are checked are so together, if more can be joined to each of them. -/
theorem Faultless.conditions (h : d.Faultless)
    (hstored : ∀ p ∈ d.pending, StoredCondition p.expression.toList) :
    d.Checked (foldChains d.conditions) := by
  -- unless one was reported, none of the conditions has an error
  refine Classical.or_iff_not_imp_left.mpr fun hfailed => clean_foldChains ?_ ?_
  · intro t ht
    obtain ⟨p, hp, rfl⟩ := List.mem_map.mp ht
    exact hstored p (List.mem_reverse.mp hp)
  · intro t ht
    obtain ⟨p, hp, rfl⟩ := List.mem_map.mp ht
    exact (h.pending p (List.mem_reverse.mp hp)).resolve_left hfailed

/-- Every draft that reading a body comes to. -/
theorem Reached.faultless {page : Page} (hnew : page.blocks = []) {body : String} {origin : Span}
    {cs : List Char} (h : Reached { page, origin } body.toList d cs) : d.Faultless := by
  refine h.kept ⟨fun b hb => ?_, fun _ hp => absurd hp List.not_mem_nil⟩ (·.settle) ?_
  · exact absurd (hnew ▸ hb) List.not_mem_nil
  intro d c rest a e d' hd _ hsettles he hchange
  have hkeep {expression : String} : e.Checked expression → d'.Checked expression :=
    Or.imp_left hchange.failed
  have hguard : e.Checked (foldChains d.conditions) := by
    rw [Draft.conditions, ← hsettles.pending]
    exact he.conditions (hsettles.pending ▸ hd.guarded.pending (List.cons_ne_nil _ _))
  refine ⟨(hchange.everyScript he.blocks Puts.checked hguard).imp fun _ => hkeep, fun p hp => ?_⟩
  rcases hchange.mem_pending hp with hp | ⟨-, heq, hvalidate⟩
  · exact hkeep (he.pending p hp)
  · rw [heq]
    exact hkeep ((checked_validate d _ _).settle hvalidate)

/-! ### The roots of verbs -/

/-- Whether the roots of all verbs are scripts on the page. -/
def Rooted (d : Draft) : Prop :=
  ∀ r ∈ d.roots, ∃ b, d.page.block? r = some b ∧ b.isExecuted

theorem Rooted.settle (h : d.Rooted) (hd : Settles d e) : e.Rooted := by
  intro r hr
  rw [Page.block?, hd.blocks]
  exact h r (hd.roots.subset hr)

/-- A script stays one while a page grows. -/
theorem Rooted.extend (h : d.Rooted) (hextends : d.page.Extends d'.page) :
    ∀ r ∈ d.roots, ∃ b, d'.page.block? r = some b ∧ b.isExecuted := by
  intro r hr
  obtain ⟨b, hb, hexecuted⟩ := h r hr
  obtain ⟨b', hb', hkind, -, -⟩ := hextends r b hb
  exact ⟨b', hb', by rw [Block.isExecuted, hkind]; exact hexecuted⟩

theorem Reached.rooted {page : Page} (hnew : page.verbs = []) {body cs : List Char} {origin : Span}
    (h : Reached { page, origin } body d cs) : d.Rooted := by
  refine h.kept (fun r hr => ?_) (·.settle) ?_
  · rw [Draft.roots, hnew] at hr
    cases hr
  intro d c rest a e d' _ _ _ he hchange
  have hold := he.extend hchange.extends
  cases hchange with
  | nothing | pend | close => exact he
  | put hv =>
    rw [Rooted, roots_put hv]
    exact hold
  | opened =>
    intro r hr
    rcases List.mem_cons.mp hr with rfl | hr
    · exact ⟨_, List.getElem?_concat_length, rfl⟩
    · exact hold r (List.mem_append_right _ hr)

end Draft

/-! ### Pages -/

/-- The scripts of a page in whose body no error is reported have none. -/
theorem Page.clean_ofBody {page : Page} {body : String} {origin : Span} (hnew : page.blocks = [])
    (h : ∀ x ∈ (page.ofBody body origin).2, x.isError = false) :
    ∀ b ∈ (page.ofBody body origin).1.blocks, b.isExecuted → Clean b.expression := by
  have hrun : Draft.Reached { page, origin } body.toList _ [] := Draft.Reached.start.run
  intro b hb hexecuted
  refine (((hrun.faultless hnew).settle (.finish _)).blocks b hb hexecuted).resolve_left ?_
  rintro ⟨x, hx, herror⟩
  rw [h x hx] at herror
  cases herror

/-- The root of each verb that a body declares is a script on the page. -/
theorem Page.rooted_ofBody {page : Page} (hnew : page.verbs = []) (body : String) (origin : Span) :
    ∀ v ∈ (page.ofBody body origin).1.verbs,
      ∃ b, (page.ofBody body origin).1.block? v.root = some b ∧ b.isExecuted := by
  have hrun : Draft.Reached { page, origin } body.toList _ [] := Draft.Reached.start.run
  exact fun v hv => ((hrun.rooted hnew).settle (.finish _)) v.root
    (List.mem_append_right _ (List.mem_map_of_mem hv))

end Gamebook
