import Gamebook.Proofs.Play.Effects

/-!
# What expressions come to

The atoms of whatever an expression comes to are a set, none of them empty (`proper_evalExpr`). This
holds whatever values the session has, which may come from anywhere: the atoms of a noun are put
together anew when it is asked for.
-/

namespace Gamebook

open Script

variable {σ α β : Type}

/-- All answers of a part of a run have a property, whatever the stage. -/
def Run.Answers (P : α → Prop) (m : Run σ α) : Prop :=
  ∀ s : Stage σ, P (m.run s).1

namespace Run.Answers

variable {P : α → Prop} {Q : β → Prop}

theorem pure {a : α} (ha : P a) : Run.Answers P (Pure.pure a : Run σ α) :=
  fun _ => ha

/-- What is known of the answer of a part may be needed behind it. -/
theorem bind {m : Run σ α} {f : α → Run σ β} (hm : m.Answers P)
    (hf : ∀ a, P a → (f a).Answers Q) : (m >>= f).Answers Q :=
  fun s => hf _ (hm s) _

/-- The answer of the last part is what counts. -/
theorem last {m : Run σ α} {f : α → Run σ β} (hf : ∀ a, (f a).Answers Q) :
    (m >>= f).Answers Q :=
  fun _ => hf _ _

end Run.Answers

section Expr

variable (g : Setting σ) (verb : String → String → Run σ Bool) (noun : String)

/-- The atoms of a combination come from the left operand, by an operation that keeps them a set. -/
theorem proper_combine {l : Operand} (hl : l.value.Proper) (op : Operator) (r : Operand) :
    (combine noun l op r : Run σ Operand).Answers fun o => o.value.Proper := by
  have hproper := Value.lasting_proper.combine (r := r) hl op
  intro s
  rw [combine]
  split
  · exact hproper
  · exact hproper

/-- Every function answers with a set of atoms, and the answer goes on to the next one. -/
theorem proper_callAll (names : List String) {args : Operand} (hargs : args.value.Proper) :
    (callAll g.book noun args names).Answers fun o => o.value.Proper := by
  induction names generalizing args with
  | nil => exact .pure hargs
  | cons name rest ih =>
    rw [callAll]
    cases Function.ofName? name with
    | none => exact .last fun _ => .pure (Value.proper_of_nil rfl)
    | some f =>
      have hcall : (f.call g.book noun args).Answers fun o => o.value.Proper :=
        fun s => f.holds_call Value.lasting_proper noun hargs s
      exact hcall.bind fun _ => ih

/-- A callee without atoms has the empty value for an answer. -/
theorem proper_callNamed (callee : Value) {args : Operand} (hargs : args.value.Proper) :
    (callNamed g.book noun callee args).Answers fun o => o.value.Proper := by
  rw [callNamed]
  split
  · exact .last fun _ => .pure (Value.proper_of_nil rfl)
  · exact proper_callAll g noun callee.atoms hargs

mutual

/-- By recursion on the syntax. The atoms of a noun are taken one by one, so nothing has to be known
of its value. -/
theorem proper_evalPrimary :
    ∀ p : Primary, (evalPrimary g verb noun p).Answers fun o => o.value.Proper
  | .atom name => by
    rw [evalPrimary]
    exact .pure (Value.lasting_proper.ofAtoms _)
  | .integer n => by
    rw [evalPrimary]
    exact .pure (Value.proper_of_nil rfl)
  | .integerOf name => by
    rw [evalPrimary]
    exact .last fun _ => .pure (Value.proper_of_nil rfl)
  | .deref name => by
    rw [evalPrimary]
    exact .last fun _ => .pure (Value.lasting_proper.ofAtoms _)
  | .verbCall target name => by
    rw [evalPrimary]
    exact .last fun _ => .pure (Value.proper_of_nil rfl)
  | .group e => by
    rw [evalPrimary]
    exact proper_evalExpr e

/-- The answer of a call is that of the last function. -/
theorem proper_evalItem :
    ∀ i : Item, (evalItem g verb noun i).Answers fun o => o.value.Proper
  | .primary p => by
    rw [evalItem]
    exact proper_evalPrimary p
  | .invoke callee => by
    rw [evalItem]
    exact .last fun callee => proper_callNamed g noun callee.value (Value.proper_of_nil rfl)
  | .apply callee arguments => by
    rw [evalItem]
    exact .last fun callee =>
      .bind (proper_evalExpr arguments) fun _ => proper_callNamed g noun callee.value

/-- Joining starts from a set of atoms and keeps it one. -/
theorem proper_evalTermOnto : ∀ (t : Term) {acc : Operand}, acc.value.Proper →
    (evalTermOnto g verb noun acc t).Answers fun o => o.value.Proper
  | .item i, acc, hacc => by
    rw [evalTermOnto]
    exact .last fun _ => proper_combine noun hacc _ _
  | .join i rest, acc, hacc => by
    rw [evalTermOnto]
    exact .last fun _ => .bind (proper_combine noun hacc _ _) fun _ hacc =>
      proper_evalTermOnto rest hacc

theorem proper_evalTerm :
    ∀ t : Term, (evalTerm g verb noun t).Answers fun o => o.value.Proper
  | .item i => by
    rw [evalTerm]
    exact proper_evalItem i
  | .join i rest => by
    rw [evalTerm]
    exact .bind (proper_evalItem i) fun _ hfirst => proper_evalTermOnto rest hfirst

/-- Whatever values a session holds, an expression comes to one that is built through operations. -/
theorem proper_evalExpr :
    ∀ e : Expr, (evalExpr g verb noun e).Answers fun o => o.value.Proper
  | .term t => by
    rw [evalExpr]
    exact proper_evalTerm t
  | .binary left op right => by
    rw [evalExpr]
    exact .bind (proper_evalExpr left) fun _ hl => .last fun _ => proper_combine noun hl op _

end

end Expr

end Gamebook
