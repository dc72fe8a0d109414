import Gamebook.Proofs.Play.Looking
import Gamebook.Proofs.Play.Parallel

/-!
# Evaluation without a book

The evaluator is given a book to call functions in, and a way to run verbs. What calls nothing makes
use of neither: it is evaluated in the same way in any book, and whatever running a verb would do.
This is shown for conditions and for the scripts that are made of them (`Script.Looks`), together
with what else is known of such scripts, that they only look.
-/

namespace Gamebook

open Script

variable {σ : Type}

/-! ### Conditions -/

section Book

variable (g : Setting σ) (c : Book σ) (verb verb' : String → String → Run σ Bool) (noun : String)

mutual

/-- A primary without calls needs no book. -/
theorem evalPrimary_inBook : ∀ p : Primary, p.callFree = true →
    evalPrimary (g.inBook c) verb' noun p = evalPrimary g verb noun p
  | .atom name, _ => by
    rw [evalPrimary, evalPrimary]
  | .integer n, _ => by
    rw [evalPrimary, evalPrimary]
  | .integerOf name, _ => by
    rw [evalPrimary, evalPrimary]
    rfl
  | .deref name, _ => by
    rw [evalPrimary, evalPrimary]
    rfl
  | .verbCall _ _, h => by
    rw [Primary.callFree] at h
    cases h
  | .group e, h => by
    rw [Primary.callFree] at h
    rw [evalPrimary, evalPrimary]
    exact evalExpr_inBook e h

/-- An item without calls needs no book. -/
theorem evalItem_inBook : ∀ i : Item, i.callFree = true →
    evalItem (g.inBook c) verb' noun i = evalItem g verb noun i
  | .primary p, h => by
    rw [Item.callFree] at h
    rw [evalItem, evalItem]
    exact evalPrimary_inBook p h
  | .invoke _, h => by
    rw [Item.callFree] at h
    cases h
  | .apply _ _, h => by
    rw [Item.callFree] at h
    cases h

/-- Uniting a value with a term without calls needs no book. -/
theorem evalTermOnto_inBook : ∀ (t : Term) (acc : Operand), t.callFree = true →
    evalTermOnto (g.inBook c) verb' noun acc t = evalTermOnto g verb noun acc t
  | .item i, acc, h => by
    rw [Term.callFree] at h
    rw [evalTermOnto, evalTermOnto, evalItem_inBook i h]
  | .join i rest, acc, h => by
    rw [Term.callFree, Bool.and_eq_true] at h
    rw [evalTermOnto, evalTermOnto, evalItem_inBook i h.1]
    have hrest (acc : Operand) := evalTermOnto_inBook rest acc h.2
    simp only [hrest]

/-- A term without calls needs no book. -/
theorem evalTerm_inBook : ∀ t : Term, t.callFree = true →
    evalTerm (g.inBook c) verb' noun t = evalTerm g verb noun t
  | .item i, h => by
    rw [Term.callFree] at h
    rw [evalTerm, evalTerm]
    exact evalItem_inBook i h
  | .join i rest, h => by
    rw [Term.callFree, Bool.and_eq_true] at h
    rw [evalTerm, evalTerm, evalItem_inBook i h.1]
    have hrest (acc : Operand) := evalTermOnto_inBook rest acc h.2
    simp only [hrest]

/-- An expression without calls needs no book. -/
theorem evalExpr_inBook : ∀ e : Expr, e.callFree = true →
    evalExpr (g.inBook c) verb' noun e = evalExpr g verb noun e
  | .term t, h => by
    rw [Expr.callFree] at h
    rw [evalExpr, evalExpr]
    exact evalTerm_inBook t h
  | .binary left op right, h => by
    rw [Expr.callFree, Bool.and_eq_true] at h
    rw [evalExpr, evalExpr, evalExpr_inBook left h.1, evalTerm_inBook right h.2]

end

/-- The same of an expression that may be missing. -/
theorem evalOptional_inBook (e : Option Expr) (h : e.all Expr.callFree = true) :
    evalOptional (g.inBook c) verb' noun e = evalOptional g verb noun e := by
  cases e with
  | none => rfl
  | some e => exact evalExpr_inBook g c verb verb' noun e h

/-- Uniting the values of nouns looks at the game alone. -/
theorem uniteValues_inBook (acc : Operand) (names : List String) :
    uniteValues (g.inBook c) acc names = uniteValues g acc names := by
  induction names generalizing acc with
  | nil => rfl
  | cons name rest ih =>
    rw [uniteValues, uniteValues]
    simp only [ih]
    rfl

theorem subject_inBook (e : Option Expr) (h : e.all Expr.callFree = true) :
    subject (g.inBook c) verb' noun e = subject g verb noun e := by
  cases e with
  | none => rfl
  | some e =>
    rw [subject, subject, evalExpr_inBook g c verb verb' noun e h]
    simp only [uniteValues_inBook]

/-- A condition without calls needs no book. -/
theorem evalCondition_inBook (x : Condition) (h : x.callFree = true) :
    evalCondition (g.inBook c) verb' noun x = evalCondition g verb noun x := by
  cases x with
  | always => rfl
  | bare e =>
    rw [evalCondition, evalCondition, evalExpr_inBook g c verb verb' noun e h]
  | compare s op v =>
    rw [Condition.callFree, Bool.and_eq_true] at h
    rw [evalCondition, evalCondition, subject_inBook g c verb verb' noun s h.1,
      evalOptional_inBook g c verb verb' noun v h.2]

/-- A segment that asks is a condition; the ones that act are left out, as they may run a verb. -/
theorem evalSegment_inBook (x : Segment) (hasks : x.asks = true) (h : x.callFree = true) :
    evalSegment (g.inBook c) verb' noun x = evalSegment g verb noun x := by
  cases x with
  | condition x =>
    rw [evalSegment, evalSegment, evalCondition_inBook g c verb verb' noun x h]
  | instruction i => cases hasks
  | invalid => rfl

end Book

/-! ### Scripts -/

/-- A script that is blank, or that asks without calling anything. -/
def Script.Looks (script : String) : Prop :=
  Text.isBlank script.toList = true ∨
    ∀ part ∈ (Chain.ofText script).1.segments, part.2.asks = true ∧ part.2.callFree = true

section Script

variable (g : Setting σ) (c : Book σ) (verb verb' : String → String → Run σ Bool) (noun : String)

/-- However far the chain is evaluated, each of its segments only looks. -/
theorem onlyLooks_evalSegments {segments : List (Connector × Segment)}
    (hparts : ∀ part ∈ segments, part.2.asks = true ∧ part.2.callFree = true) (v : Verdict) :
    OnlyLooks (evalSegments g verb noun v segments) := by
  induction segments generalizing v with
  | nil => exact .pure v
  | cons part rest ih =>
    obtain ⟨hasks, hfree⟩ := hparts part List.mem_cons_self
    rw [evalSegments]
    split
    · exact .bind (onlyLooks_evalSegment g verb noun part.2 hasks hfree) fun _ =>
        ih (fun part hpart => hparts part (List.mem_cons_of_mem _ hpart)) _
    · exact .pure v

/-- The segments of such a chain need no book, whatever was found out before them. -/
theorem evalSegments_inBook {segments : List (Connector × Segment)}
    (hparts : ∀ part ∈ segments, part.2.asks = true ∧ part.2.callFree = true) (v : Verdict) :
    evalSegments (g.inBook c) verb' noun v segments = evalSegments g verb noun v segments := by
  induction segments generalizing v with
  | nil => rfl
  | cons part rest ih =>
    obtain ⟨hasks, hfree⟩ := hparts part List.mem_cons_self
    have hrest := ih fun part hpart => hparts part (List.mem_cons_of_mem _ hpart)
    rw [evalSegments, evalSegments, evalSegment_inBook g c verb verb' noun part.2 hasks hfree]
    simp only [hrest]

/-- Evaluating a script that is not blank is evaluating its chain, behind some reports. -/
theorem evalScript_eq {script : String} (h : Text.isBlank script.toList = false) :
    evalScript g verb noun script = (do
      (Chain.ofText script).2.forM fun e => Run.problem noun (.syntaxError e.value script)
      let first ← evalSegment g verb noun (Chain.ofText script).1.first
      evalSegments g verb noun first (Chain.ofText script).1.rest) := by
  rw [evalScript, h, if_neg Bool.false_ne_true]
  rfl

/-- A script that looks changes nothing in the game. -/
theorem onlyLooks_evalScript {script : String} (h : Looks script) :
    OnlyLooks (evalScript g verb noun script) := by
  cases hblank : Text.isBlank script.toList with
  | true =>
    rw [evalScript, if_pos hblank]
    exact .pure _
  | false =>
    have hparts := h.resolve_left (by simp [hblank])
    obtain ⟨hasks, hfree⟩ := hparts _ List.mem_cons_self
    rw [evalScript_eq g verb noun hblank]
    exact .bind (.forM (fun _ => .problem noun _) _) fun _ =>
      .bind (onlyLooks_evalSegment g verb noun _ hasks hfree) fun _ =>
        onlyLooks_evalSegments g verb noun
          (fun part hpart => hparts part (List.mem_cons_of_mem _ hpart)) _

/-- A script that looks is evaluated in the same way in any book. -/
theorem evalScript_inBook {script : String} (h : Looks script) :
    evalScript (g.inBook c) verb' noun script = evalScript g verb noun script := by
  cases hblank : Text.isBlank script.toList with
  | true => rw [evalScript, evalScript, if_pos hblank, if_pos hblank]
  | false =>
    have hparts := h.resolve_left (by simp [hblank])
    obtain ⟨hasks, hfree⟩ := hparts _ List.mem_cons_self
    have hrest := evalSegments_inBook g c verb verb' noun fun part hpart =>
      hparts part (List.mem_cons_of_mem _ hpart)
    rw [evalScript_eq _ verb' noun hblank, evalScript_eq g verb noun hblank,
      evalSegment_inBook g c verb verb' noun _ hasks hfree]
    simp only [hrest]

end Script

end Gamebook
