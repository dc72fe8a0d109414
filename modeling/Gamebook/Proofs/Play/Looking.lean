import Gamebook.Proofs.Play.Effects
import Gamebook.Proofs.Script.Completeness
import Gamebook.Proofs.Script.Folding

/-!
# Conditions only look

A condition may report problems while it is evaluated, such as a division by zero or a noun that
nobody knows. As long as it calls neither a function nor a verb, that is all it does: the session,
the book and the text shown stay as they are, and the answer depends on the session alone. So it
does not matter when such a condition is evaluated, nor what was evaluated before it.
-/

namespace Gamebook

open Script

/-! ### Scripts without calls -/

namespace Script

mutual

/-- Whether nothing is called in a primary. -/
def Primary.callFree : Primary → Bool
  | .atom _ => true
  | .integer _ => true
  | .integerOf _ => true
  | .deref _ => true
  | .verbCall _ _ => false
  | .group e => e.callFree

/-- Whether nothing is called in an item. -/
def Item.callFree : Item → Bool
  | .primary p => p.callFree
  | .invoke _ => false
  | .apply _ _ => false

/-- Whether nothing is called in a term. -/
def Term.callFree : Term → Bool
  | .item i => i.callFree
  | .join i rest => i.callFree && rest.callFree

/-- Whether nothing is called in an expression. -/
def Expr.callFree : Expr → Bool
  | .term t => t.callFree
  | .binary left _ right => left.callFree && right.callFree

end

/-- Whether nothing is called in a condition. -/
def Condition.callFree : Condition → Bool
  | .always => true
  | .bare e => e.callFree
  | .compare s _ v => s.all Expr.callFree && v.all Expr.callFree

/-- Whether a segment that is a condition calls nothing. -/
def Segment.callFree : Segment → Bool
  | .condition c => c.callFree
  | _ => true

end Script

/-! ### Looking -/

variable {σ α β : Type}

/-- A part of a run that does nothing but report, and whose answer and reports depend on nothing but
the session. -/
def OnlyLooks (m : Run σ α) : Prop :=
  ∀ w : Session, ∃ answer reports, ∀ s : Stage σ, s.session = w →
    m.run s = (answer, { s with diagnostics := s.diagnostics ++ reports })

namespace OnlyLooks

/-- Giving an answer is no more than looking. -/
theorem pure (a : α) : OnlyLooks (Pure.pure a : Run σ α) := by
  refine fun w => ⟨a, [], fun s _ => ?_⟩
  rw [List.append_nil]
  rfl

/-- Looking, and then looking according to what was seen. -/
theorem bind {m : Run σ α} {f : α → Run σ β} (hm : OnlyLooks m) (hf : ∀ a, OnlyLooks (f a)) :
    OnlyLooks (m >>= f) := by
  intro w
  obtain ⟨a, seen, hm⟩ := hm w
  obtain ⟨b, seen', hf⟩ := hf a w
  refine ⟨b, seen ++ seen', fun s hs => ?_⟩
  rw [StateT.run_bind, hm s hs, ← List.append_assoc]
  exact hf { s with diagnostics := s.diagnostics ++ seen } hs

/-- Looking at the session. -/
theorem session : OnlyLooks (Run.session : Run σ Session) := by
  refine fun w => ⟨w, [], fun s hs => ?_⟩
  rw [List.append_nil, ← hs]
  rfl

/-- Reporting something. -/
theorem report (d : Diagnostic) : OnlyLooks (Run.report d : Run σ Unit) :=
  fun _ => ⟨(), [d], fun _ _ => rfl⟩

/-- Reporting a problem. -/
theorem problem (noun : String) (p : RunProblem) :
    OnlyLooks (Run.problem noun p : Run σ Unit) :=
  report _

/-- Doing something for each element of a list. -/
theorem forM {f : α → Run σ Unit} (hf : ∀ a, OnlyLooks (f a)) (as : List α) :
    OnlyLooks (as.forM f) := by
  induction as with
  | nil => exact pure ()
  | cons a as ih => exact bind (hf a) fun _ => ih

/-- The answer depends on the session alone. -/
theorem answer_eq {m : Run σ α} (h : OnlyLooks m) {s t : Stage σ} (hst : s.session = t.session) :
    (m.run s).1 = (m.run t).1 := by
  obtain ⟨a, seen, hm⟩ := h t.session
  rw [hm s hst, hm t rfl]

/-- The session stays as it is. -/
theorem session_eq {m : Run σ α} (h : OnlyLooks m) (s : Stage σ) :
    (m.run s).2.session = s.session := by
  obtain ⟨a, seen, hm⟩ := h s.session
  rw [hm s rfl]

end OnlyLooks

/-! ### Asking for some nouns only -/

/-- A leaf that asks for no nouns but those of a kind. -/
def Script.Primary.AsksOnly (N : String → Prop) : Primary → Prop
  | .integerOf name => N name
  | .deref name => N name
  | _ => True

theorem Script.Primary.asksOnly_true (p : Primary) : p.AsksOnly fun _ => True := by
  cases p <;> trivial

/-- Two sessions in which the nouns of a kind have the same values. -/
def Session.AgreesOn (N : String → Prop) (s t : Session) : Prop :=
  ∀ name, N name → s.value? name = t.value? name

/-- A part of a run that only looks, and asks for no nouns but those of a kind: the others may have
any values. -/
structure Run.Asks (N : String → Prop) (m : Run σ α) : Prop where
  onlyLooks : OnlyLooks m
  answer_eq : ∀ {s t : Stage σ}, s.session.AgreesOn N t.session → (m.run s).1 = (m.run t).1

namespace Run.Asks

variable {N : String → Prop}

theorem pure (a : α) : Run.Asks N (Pure.pure a : Run σ α) :=
  ⟨.pure a, fun _ => rfl⟩

theorem bind {m : Run σ α} {f : α → Run σ β} (hm : m.Asks N) (hf : ∀ a, (f a).Asks N) :
    (m >>= f).Asks N where
  onlyLooks := .bind hm.onlyLooks fun a => (hf a).onlyLooks
  answer_eq {s t} hst := by
    have hagrees : (m.run s).2.session.AgreesOn N (m.run t).2.session := by
      rw [hm.onlyLooks.session_eq s, hm.onlyLooks.session_eq t]
      exact hst
    rw [Run.run_bind, Run.run_bind, hm.answer_eq hst]
    exact (hf _).answer_eq hagrees

theorem report (d : Diagnostic) : Run.Asks N (Run.report d : Run σ Unit) :=
  ⟨.report d, fun _ => rfl⟩

end Run.Asks

/-! ### Evaluation without calls -/

section Expr

variable (g : Setting σ) (verb : String → String → Run σ Bool) (noun : String) {N : String → Prop}

/-- Asking for the value of a noun of the kind. -/
theorem asks_valueOf {name : String} (h : N name) : (g.valueOf name).Asks N where
  onlyLooks := by
    refine .bind .session fun s => ?_
    cases s.value? name with
    | some v => exact .pure v
    | none =>
      dsimp only
      cases g.story.lookup name with
      | ok page => exact .pure _
      | error d => exact .bind (.report d) fun _ => .pure _
  answer_eq {s t} hst := by
    rw [Setting.valueOf, Run.run_bind, Run.run_bind, Run.run_session, Run.run_session]
    dsimp only
    rw [hst name h]
    cases t.session.value? name with
    | some v => rfl
    | none =>
      cases g.story.lookup name with
      | ok page => rfl
      | error d => rfl

/-- Applying an operator. -/
theorem asks_combine (l : Operand) (op : Operator) (r : Operand) :
    (combine noun l op r : Run σ Operand).Asks N := by
  rw [combine]
  split
  · exact .bind (.report _) fun _ => .pure _
  · exact .bind (.pure ()) fun _ => .pure _

mutual

/-- A primary without calls asks for the nouns in it. -/
theorem asks_evalPrimary : ∀ p : Primary, p.callFree = true → p.Leaves (Primary.AsksOnly N) →
    (evalPrimary g verb noun p).Asks N
  | .atom name, _, _ => by
    rw [evalPrimary]
    exact .pure _
  | .integer n, _, _ => by
    rw [evalPrimary]
    exact .pure _
  | .integerOf name, _, h => by
    rw [evalPrimary]
    exact .bind (asks_valueOf g h) fun _ => .pure _
  | .deref name, _, h => by
    rw [evalPrimary]
    exact .bind (asks_valueOf g h) fun _ => .pure _
  | .verbCall _ _, hfree, _ => by
    rw [Primary.callFree] at hfree
    cases hfree
  | .group e, hfree, h => by
    rw [Primary.callFree] at hfree
    rw [Primary.Leaves] at h
    rw [evalPrimary]
    exact asks_evalExpr e hfree h

/-- An item without calls asks for the nouns in it. -/
theorem asks_evalItem : ∀ i : Item, i.callFree = true → i.Leaves (Primary.AsksOnly N) →
    (evalItem g verb noun i).Asks N
  | .primary p, hfree, h => by
    rw [Item.callFree] at hfree
    rw [Item.Leaves] at h
    rw [evalItem]
    exact asks_evalPrimary p hfree h
  | .invoke _, hfree, _ => by
    rw [Item.callFree] at hfree
    cases hfree
  | .apply _ _, hfree, _ => by
    rw [Item.callFree] at hfree
    cases hfree

/-- Uniting a value with a term without calls. -/
theorem asks_evalTermOnto : ∀ (t : Term) (acc : Operand), t.callFree = true →
    t.Leaves (Primary.AsksOnly N) → (evalTermOnto g verb noun acc t).Asks N
  | .item i, acc, hfree, h => by
    rw [Term.callFree] at hfree
    rw [Term.Leaves] at h
    rw [evalTermOnto]
    exact .bind (asks_evalItem i hfree h) fun _ => asks_combine noun _ _ _
  | .join i rest, acc, hfree, h => by
    rw [Term.callFree, Bool.and_eq_true] at hfree
    rw [Term.Leaves] at h
    rw [evalTermOnto]
    exact .bind (asks_evalItem i hfree.1 h.1) fun _ => .bind (asks_combine noun _ _ _)
      fun acc => asks_evalTermOnto rest acc hfree.2 h.2

/-- A term without calls asks for the nouns in it. -/
theorem asks_evalTerm : ∀ t : Term, t.callFree = true → t.Leaves (Primary.AsksOnly N) →
    (evalTerm g verb noun t).Asks N
  | .item i, hfree, h => by
    rw [Term.callFree] at hfree
    rw [Term.Leaves] at h
    rw [evalTerm]
    exact asks_evalItem i hfree h
  | .join i rest, hfree, h => by
    rw [Term.callFree, Bool.and_eq_true] at hfree
    rw [Term.Leaves] at h
    rw [evalTerm]
    exact .bind (asks_evalItem i hfree.1 h.1) fun acc => asks_evalTermOnto rest acc hfree.2 h.2

/-- An expression without calls only looks, and asks for no nouns but those in it. -/
theorem asks_evalExpr : ∀ e : Expr, e.callFree = true → e.Leaves (Primary.AsksOnly N) →
    (evalExpr g verb noun e).Asks N
  | .term t, hfree, h => by
    rw [Expr.callFree] at hfree
    rw [Expr.Leaves] at h
    rw [evalExpr]
    exact asks_evalTerm t hfree h
  | .binary left op right, hfree, h => by
    rw [Expr.callFree, Bool.and_eq_true] at hfree
    rw [Expr.Leaves] at h
    rw [evalExpr]
    exact .bind (asks_evalExpr left hfree.1 h.1) fun _ => .bind (asks_evalTerm right hfree.2 h.2)
      fun _ => asks_combine noun _ _ _

end

theorem onlyLooks_valueOf (name : String) : OnlyLooks (g.valueOf name) :=
  (asks_valueOf (N := fun _ => True) g trivial).onlyLooks

/-- An expression without calls only looks. -/
theorem onlyLooks_evalExpr (e : Expr) (h : e.callFree = true) :
    OnlyLooks (evalExpr g verb noun e) :=
  (asks_evalExpr g verb noun e h (e.leaves_of_forall Primary.asksOnly_true)).onlyLooks

/-- An expression that may be missing. -/
theorem onlyLooks_evalOptional (e : Option Expr) (h : e.all Expr.callFree = true) :
    OnlyLooks (evalOptional g verb noun e) := by
  cases e with
  | none => exact .pure _
  | some e => exact onlyLooks_evalExpr g verb noun e h

/-- Uniting the values of nouns. -/
theorem onlyLooks_uniteValues (acc : Operand) (names : List String) :
    OnlyLooks (uniteValues g acc names) := by
  induction names generalizing acc with
  | nil => exact .pure _
  | cons name rest ih => exact .bind (onlyLooks_valueOf g name) fun _ => ih _

/-- The left side of a comparison. -/
theorem onlyLooks_subject (e : Option Expr) (h : e.all Expr.callFree = true) :
    OnlyLooks (subject g verb noun e) := by
  cases e with
  | none => exact .bind (onlyLooks_valueOf g noun) fun _ => .pure _
  | some e =>
    refine .bind (onlyLooks_evalExpr g verb noun e h) fun o => ?_
    split
    · exact .pure o
    · exact onlyLooks_uniteValues g _ _

/-- A condition without calls only looks. -/
theorem onlyLooks_evalCondition (c : Condition) (h : c.callFree = true) :
    OnlyLooks (evalCondition g verb noun c) := by
  cases c with
  | always => exact .pure true
  | bare e => exact .bind (onlyLooks_evalExpr g verb noun e h) fun _ => .pure _
  | compare s c v =>
    rw [Condition.callFree, Bool.and_eq_true] at h
    exact .bind (onlyLooks_subject g verb noun s h.1) fun _ =>
      .bind (onlyLooks_evalOptional g verb noun v h.2) fun _ => .pure _

/-- A segment that asks without calls only looks. -/
theorem onlyLooks_evalSegment (s : Segment) (hasks : s.asks = true) (h : s.callFree = true) :
    OnlyLooks (evalSegment g verb noun s) := by
  cases s with
  | condition c => exact .bind (onlyLooks_evalCondition g verb noun c h) fun _ => .pure _
  | instruction i => cases hasks
  | invalid => exact .pure _

/-- Reading a script only reports its errors. -/
theorem onlyLooks_readScript (script : String) :
    OnlyLooks (readScript noun script : Run σ Chain) :=
  .bind (.forM (fun _ => .problem noun _) _) fun _ => .pure _

end Expr

end Gamebook
