import Gamebook.Proofs.Play.Assignment
import Gamebook.Proofs.SortedMap

/-!
# Instructions change all their targets at once

An instruction such as `apple,pear+=@apple` changes several nouns by one value. The targets and the
value are evaluated first, so no target sees what was done to another one; and since the atoms of
whatever an expression comes to are a set (`proper_evalExpr`), no noun is changed twice. What a
target holds afterwards therefore depends only on what it held before, the order of the targets does
not matter, and nothing but their values is changed (`runAction_fans_out`).
-/

namespace Gamebook

open Script

variable {σ : Type}

/-! ### Targets are distinct -/

section Expr

variable (g : Setting σ) (verb : String → String → Run σ Bool) (noun : String)

/-- No noun is a target twice. -/
theorem nodup_targetsOf (target : Option Expr) :
    (targetsOf g verb noun target).Answers List.Nodup := by
  cases target with
  | none => exact .pure (List.nodup_singleton noun)
  | some e => exact .bind (proper_evalExpr g verb noun e) fun _ hproper => .pure hproper.nodup

/-- Looking for the targets only looks, as long as nothing is called. -/
theorem onlyLooks_targetsOf (target : Option Expr) (h : target.all Expr.callFree = true) :
    OnlyLooks (targetsOf g verb noun target) := by
  cases target with
  | none => exact .pure _
  | some e => exact .bind (onlyLooks_evalExpr g verb noun e h) fun _ => .pure _

end Expr

/-! ### Changing them -/

/-- The value that a noun has after a change of some nouns. -/
def Session.valueAfter? (s : Session) (gives : String → Value) (c : Change) (v : Value)
    (targets : List String) (name : String) : Option Value :=
  if name ∈ targets then some ((s.ownValue name (gives name)).change c v).1 else s.value? name

/-- Changing distinct nouns one after the other changes each once, and nothing else. -/
theorem run_changeNouns (g : Setting σ) (c : Change) (v : Value) {targets : List String}
    (hnodup : targets.Nodup) (s : Stage σ) :
    ∃ values, (targets.forM (changeNoun g c v)).run s =
        ((), { s with session := { s.session with values } }) ∧
      ∀ name, values.get? name = s.session.valueAfter? g.defaultOf c v targets name := by
  induction targets generalizing s with
  | nil => exact ⟨s.session.values, rfl, fun name => (if_neg List.not_mem_nil).symm⟩
  | cons target targets ih =>
    obtain ⟨hnew, hnodup⟩ := List.nodup_cons.mp hnodup
    let t : Session := (s.session.modifyValue target (g.defaultOf target) (·.change c v)).1
    have ht (name : String) : t.value? name = if target = name then
        some ((s.session.ownValue target (g.defaultOf target)).change c v).1
        else s.session.value? name :=
      s.session.value?_modifyValue target _ _ name
    obtain ⟨values, hrun, hvalues⟩ := ih hnodup { s with session := t }
    refine ⟨values, hrun, fun name => (hvalues name).trans ?_⟩
    rw [Session.valueAfter?, Session.valueAfter?]
    by_cases htarget : target = name
    · subst htarget
      rw [if_neg hnew, if_pos List.mem_cons_self]
      exact (ht target).trans (if_pos rfl)
    · -- another noun has kept its own value up to here
      have hkept : t.value? name = s.session.value? name := (ht name).trans (if_neg htarget)
      have hmem : name ∈ target :: targets ↔ name ∈ targets :=
        List.mem_cons.trans (or_iff_right (Ne.symm htarget))
      simp only [hmem, Session.ownValue]
      rw [hkept]

section Action

variable (g : Setting σ) (verb : String → String → Run σ Bool) (noun : String)

/-- Up to the changes an instruction without calls only looks, and then it changes its targets. -/
theorem run_change {target e : Option Expr} (c : Change)
    (htarget : target.all Expr.callFree = true) (he : e.all Expr.callFree = true)
    (s : Stage σ) :
    let targets := ((targetsOf g verb noun target).run s).1
    let v := ((evalOptional g verb noun e).run s).1.value
    ∃ values reports, ((runAction g verb noun (.change target c e)).run s).2 =
        { s with
          session := { s.session with values }, diagnostics := s.diagnostics ++ reports } ∧
      ∀ name, values.get? name = s.session.valueAfter? g.defaultOf c v targets name := by
  obtain ⟨targets, seen, htargets⟩ := onlyLooks_targetsOf g verb noun target htarget s.session
  obtain ⟨o, seen', hvalue⟩ := onlyLooks_evalOptional g verb noun e he s.session
  have hnodup : targets.Nodup := by
    have hanswer := nodup_targetsOf g verb noun target s
    rwa [htargets s rfl] at hanswer
  have hchanges (reports : List Diagnostic) :=
    run_changeNouns g c o.value hnodup { s with diagnostics := s.diagnostics ++ reports }
  rw [htargets s rfl, hvalue s rfl, runAction, Run.run_bind, htargets s rfl, Run.run_bind,
    hvalue { s with diagnostics := s.diagnostics ++ seen } rfl, List.append_assoc]
  dsimp only
  split
  · obtain ⟨_, complaint, hproblem⟩ :=
      OnlyLooks.problem (σ := σ) noun RunProblem.noTarget s.session
    rw [Run.run_bind, hproblem { s with diagnostics := s.diagnostics ++ (seen ++ seen') } rfl,
      List.append_assoc]
    obtain ⟨values, hrun, hvalues⟩ := hchanges (seen ++ seen' ++ complaint)
    exact ⟨values, _, congrArg Prod.snd hrun, hvalues⟩
  · obtain ⟨values, hrun, hvalues⟩ := hchanges (seen ++ seen')
    exact ⟨values, _, congrArg Prod.snd hrun, hvalues⟩

/-- An instruction in which nothing is called changes the values of its targets and nothing else,
but for what it reports. Each target is changed from the value that it had, be it the session's or
the story's, by the one value that the right side comes to before anything is changed. So it does
not matter in which order the targets are named. -/
theorem runAction_fans_out {target e : Option Expr} (c : Change)
    (htarget : target.all Expr.callFree = true) (he : e.all Expr.callFree = true)
    (s : Stage σ) :
    let targets := ((targetsOf g verb noun target).run s).1
    let v := ((evalOptional g verb noun e).run s).1.value
    let t := ((runAction g verb noun (.change target c e)).run s).2
    (∃ values reports, t = { s with
      session := { s.session with values }, diagnostics := s.diagnostics ++ reports }) ∧
    (∀ name ∈ targets, t.session.value? name =
      some ((s.session.ownValue name (g.defaultOf name)).change c v).1) ∧
    (∀ name ∉ targets, t.session.value? name = s.session.value? name) ∧
    ∀ target', target'.all Expr.callFree = true →
      ((targetsOf g verb noun target').run s).1.Perm targets →
      ((runAction g verb noun (.change target' c e)).run s).2.session = t.session := by
  intro targets v t
  obtain ⟨values, reports, ht, hvalues⟩ := run_change g verb noun c htarget he s
  have hafter (name : String) :
      t.session.value? name = s.session.valueAfter? g.defaultOf c v targets name := by
    rw [show t = _ from ht]
    exact hvalues name
  refine ⟨⟨values, reports, ht⟩, fun name hname => (hafter name).trans (if_pos hname),
    fun name hname => (hafter name).trans (if_neg hname), fun target' htarget' hperm => ?_⟩
  obtain ⟨values', reports', ht', hvalues'⟩ := run_change g verb noun c htarget' he s
  have hsame : values' = values := by
    refine SortedMap.ext_get? fun name => ?_
    rw [hvalues', hvalues]
    simp only [Session.valueAfter?, hperm.mem_iff]
    rfl
  rw [ht', show t = _ from ht, hsame]

end Action

/-- What is red or green is taken out of the apples and out of the basket, in either order; the
basket has to give up its red atom although the apples have none by then. -/
theorem runAction_fans_out_orchard :
    let basket : Value := { atoms := ["plum", "red"] }
    let start : Stage Unit := { session := Session.fresh.setValue "basket" basket, host := () }
    let verb (_ _ : String) : Run Unit Bool := return false
    let names (first second : String) : Option Expr :=
      some (.term (.join (.primary (.atom first)) (.item (.primary (.atom second)))))
    let apples : Option Expr := some (.ofPrimary (.deref "apple"))
    let t := ((runAction orchard verb "apple"
      (.change (names "apple" "basket") .remove apples)).run start).2
    let t' := ((runAction orchard verb "apple"
      (.change (names "basket" "apple") .remove apples)).run start).2
    (names "apple" "basket").all Expr.callFree = true ∧ apples.all Expr.callFree = true ∧
      (names "basket" "apple").all Expr.callFree = true ∧
      t.session.value? "apple" = some { atoms := [], integer := 3, dirty := true } ∧
      t.session.value? "basket" = some { atoms := ["plum"], dirty := true } ∧
      t.session.value? "pear" = none ∧ t'.session = t.session := by
  intro basket start verb names apples t t'
  have hfree : (names "apple" "basket").all Expr.callFree = true := by decide
  have happles : apples.all Expr.callFree = true := by decide
  obtain ⟨-, htargets, hothers, horder⟩ :=
    runAction_fans_out orchard verb "apple" .remove hfree happles start
  have hnames : ((targetsOf orchard verb "apple" (names "apple" "basket")).run start).1 =
      ["apple", "basket"] := by
    decide +kernel
  have hnames' : ((targetsOf orchard verb "apple" (names "basket" "apple")).run start).1 =
      ["basket", "apple"] := by
    decide +kernel
  rw [hnames] at htargets hothers horder
  refine ⟨hfree, happles, by decide, (htargets "apple" (by decide)).trans ?_,
    (htargets "basket" (by decide)).trans ?_, hothers "pear" (by decide),
    horder (names "basket" "apple") (by decide) ?_⟩
  · decide +kernel
  · decide +kernel
  · rw [hnames']
    exact List.Perm.swap _ _ _

end Gamebook
