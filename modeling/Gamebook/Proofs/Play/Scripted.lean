import Gamebook.Proofs.Play.Deeds
import Gamebook.Proofs.Value.Proper

/-!
# What runs are made of

Every run is put together from a few kinds of steps: it reports a problem, shows a text, looks at
the value of a noun, changes one, or calls a function. `Scripted` says so of a run, together with
its deeds and with what is known of its answer. It is shown here of each function of evaluation, up
to `scripted_runVerb`; whatever each step keeps, a run keeps.

What is known of the values is left open, as long as it is about atoms and lasts through the
operations on values (`Value.Lasting`). It may be nothing at all, or that the atoms are a set of
texts that are not empty.
-/

namespace Gamebook

open Script

/-! ### What is known of values -/

/-- Something about the atoms of values that holds without atoms and lasts through operations. -/
structure Value.Lasting (V : Value → Prop) : Prop where
  of_nil : ∀ {v : Value}, v.atoms = [] → V v
  congr : ∀ {v w : Value}, V v → w.atoms = v.atoms → V w
  apply : ∀ {v : Value} (m : Value.Mutation), V v → V (m.apply v).1

namespace Value

theorem lasting_true : Lasting fun _ => True :=
  ⟨fun _ => trivial, fun _ _ => trivial, fun _ _ => trivial⟩

/-- That the atoms are a set of texts that are not empty lasts. -/
theorem lasting_proper : Lasting Proper :=
  ⟨proper_of_nil, Proper.congr, fun m hv => hv.apply m⟩

namespace Lasting

variable {V : Value → Prop}

/-- A value that is made of atoms is the empty value, joined with them. -/
theorem ofAtoms (hV : Lasting V) (atoms : List String) : V (Value.ofAtoms atoms) := by
  have hunion : V (Value.empty.union { atoms }).1 := hV.apply (.union { atoms }) (hV.of_nil rfl)
  exact hV.congr hunion rfl

/-- Operands are combined by one of the operations on values; the integer is set behind it. -/
theorem combine (hV : Lasting V) {l r : Operand} (hl : V l.value) (op : Operator) :
    V (l.combine op r).value := by
  have hatoms : V (Operand.combineAtoms op l.value r.value) := by
    cases op with
    | union => exact hV.apply (.union r.value) hl
    | difference => exact hV.apply (.diff r.value) hl
    | intersect => exact hV.apply (.inter r.value) hl
    | concat => exact hV.apply (.concat r.value) hl
  exact hV.apply (.setInteger _) hatoms

/-- A literal is read piece by piece, and each one adds an atom or sets the integer. -/
theorem ofLiteral (hV : Lasting V) (s : String) : V (Value.ofLiteral s) := by
  have hpieces : ∀ (ps : List Piece) {v : Value}, V v → V (ps.foldl absorb v) := by
    intro ps
    induction ps with
    | nil => exact fun hv => hv
    | cons piece ps ih =>
      intro v hv
      refine ih ?_
      cases piece with
      | atom text => exact hV.apply (.add _) hv
      | number numeral =>
        rw [absorb]
        split
        · exact hV.congr hv rfl
        · exact hv
  exact hV.congr (hpieces _ (hV.of_nil (v := .empty) rfl)) rfl

/-- A change is an operation and an integer that is set, or an assignment, which copies the
atoms. -/
theorem change (hV : Lasting V) {v w : Value} (hv : V v) (hw : V w) (c : Change) :
    V (v.change c w).1 := by
  cases c with
  | add => exact hV.apply (.setInteger _) (hV.apply (.union w) hv)
  | remove => exact hV.apply (.setInteger _) (hV.apply (.diff w) hv)
  | assign =>
    rw [Value.change, Value.assign]
    split
    · exact hv
    · exact hV.congr hw rfl

end Lasting

end Value

/-! ### Steps -/

variable {σ α β : Type}

/-- A part of a run that is put together from steps of the known kinds, with what is known of its
answer and with its deeds. -/
inductive Scripted (g : Setting σ) (V : Value → Prop) :
    {α : Type} → (α → Prop) → Run σ α → Deeds σ → Prop where
  /-- An answer, and nothing done for it. -/
  | pure {α : Type} {P : α → Prop} {a : α} (h : P a) : Scripted g V P (Pure.pure a) .none
  /-- One part behind another, on the answer of which it may depend. -/
  | bind {α β : Type} {P : α → Prop} {Q : β → Prop} {m : Run σ α} {f : α → Run σ β} {d : Deeds σ}
      {e : α → Deeds σ} (hm : Scripted g V P m d)
      (hf : ∀ a, P a → Scripted g V Q (f a) (e a)) : Scripted g V Q (m >>= f) (d.andThen m e)
  /-- A problem that is reported. -/
  | report (d : Diagnostic) : Scripted g V (fun _ => True) (Run.report d) .none
  /-- A text that is shown. -/
  | print (text : String) : Scripted g V (fun _ => True) (Run.print text) .none
  /-- Looking at a value, whatever its mark. -/
  | look {β : Type} {Q : β → Prop} {f : Value → Run σ β} {d : Deeds σ} (noun : String)
      (hmark : ∀ v, f v.clearDirty = f v) (hf : ∀ v, V v → Scripted g V Q (f v) d) :
      Scripted g V Q (g.valueOf noun >>= f) (.after (g.valueOf noun) fun _ => d)
  /-- A noun that is changed by a value. -/
  | change (noun : String) (c : Change) {v : Value} (hv : V v) :
      Scripted g V (fun _ => True) (changeNoun g c v noun) fun _ => [.change noun c v]
  /-- A function that is called. -/
  | call (noun : String) (f : Function) {args : Operand} (hargs : V args.value) :
      Scripted g V (fun o => V o.value) (f.call g.book noun args) (callDeeds g.book noun f args)

namespace Scripted

variable {g : Setting σ} {V : Value → Prop} {P : α → Prop} {Q : β → Prop} {m : Run σ α}
  {d : Deeds σ}

/-- Computing something of the answer of a part. -/
theorem map {f : α → β} (hm : Scripted g V P m d) (hf : ∀ a, P a → Q (f a)) :
    Scripted g V Q (m >>= fun a => Pure.pure (f a)) d := by
  have hbind := hm.bind fun a ha => Scripted.pure (g := g) (V := V) (hf a ha)
  rwa [Deeds.andThen_none] at hbind

/-- Going on behind a part that does nothing. -/
theorem after {f : α → Run σ β} {e : α → Deeds σ} (hm : Scripted g V P m .none)
    (hf : ∀ a, P a → Scripted g V Q (f a) (e a)) : Scripted g V Q (m >>= f) (.after m e) :=
  hm.bind hf

/-- Ending with a part that does nothing. -/
theorem last {f : α → Run σ β} (hm : Scripted g V P m d)
    (hf : ∀ a, P a → Scripted g V Q (f a) .none) : Scripted g V Q (m >>= f) d := by
  have hbind := hm.bind hf
  rwa [Deeds.andThen_none] at hbind

theorem problem (noun : String) (p : RunProblem) :
    Scripted g V (fun _ => True) (Run.problem noun p) .none :=
  report _

end Scripted

/-! ### Evaluation -/

section Expr

variable (g : Setting σ) {V : Value → Prop} (hV : Value.Lasting V)
  (verb : String → String → Run σ Bool) (deeds : String → String → Deeds σ)
  (hverb : ∀ noun name, Scripted g V (fun _ => True) (verb noun name) (deeds noun name))
  (noun : String)

include hV

/-- An integer that goes out of range is reported, and what is known of the atoms stays. -/
theorem scripted_combine {l : Operand} (hl : V l.value) (op : Operator) (r : Operand) :
    Scripted g V (fun o => V o.value) (combine noun l op r) .none := by
  rw [combine]
  split
  · exact .last (.problem noun _) fun _ _ => .pure (hV.combine hl op)
  · exact .pure (hV.combine hl op)

/-- Functions are called one by one, each with the answer of the one in front. A name of none is
reported, and what is left of the calls is not made. -/
theorem scripted_callAll (names : List String) {args : Operand} (hargs : V args.value) :
    Scripted g V (fun o => V o.value) (callAll g.book noun args names)
      (callAllDeeds g.book noun args names) := by
  induction names generalizing args with
  | nil => exact .pure hargs
  | cons name rest ih =>
    rw [callAll, callAllDeeds]
    cases Function.ofName? name with
    | none => exact .last (.problem noun _) fun _ _ => .pure (hV.of_nil rfl)
    | some f => exact .bind (.call noun f hargs) fun _ => ih

/-- All atoms of a callee are names of functions. A callee without atoms is reported. -/
theorem scripted_callNamed (callee : Value) {args : Operand} (hargs : V args.value) :
    Scripted g V (fun o => V o.value) (callNamed g.book noun callee args)
      (callAllDeeds g.book noun args callee.atoms) := by
  rw [callNamed]
  split
  next hnil =>
    rw [List.isEmpty_iff] at hnil
    rw [hnil]
    exact .last (.problem noun _) fun _ _ => .pure (hV.of_nil rfl)
  next => exact scripted_callAll g hV noun callee.atoms hargs

include hverb

set_option linter.unusedSectionVars false in
mutual

/-- The parts of an expression, by recursion on the syntax: nouns are looked at, verbs are run, and
nothing else is done. -/
theorem scripted_evalPrimary : ∀ p : Primary,
    Scripted g V (fun o => V o.value) (evalPrimary g verb noun p)
      (primaryDeeds g verb deeds noun p)
  | .atom name => by
    rw [evalPrimary, primaryDeeds]
    exact .pure (hV.ofAtoms _)
  | .integer n => by
    rw [evalPrimary, primaryDeeds]
    exact .pure (hV.of_nil rfl)
  | .integerOf name => by
    rw [evalPrimary, primaryDeeds]
    exact .look (d := .none) name (fun _ => rfl) fun _ _ => .pure (hV.of_nil rfl)
  | .deref name => by
    rw [evalPrimary, primaryDeeds]
    exact .look (d := .none) name (fun _ => rfl) fun _ _ => .pure (hV.ofAtoms _)
  | .verbCall target name => by
    rw [evalPrimary, primaryDeeds]
    exact .map (hverb _ name) fun _ _ => hV.of_nil rfl
  | .group e => by
    rw [evalPrimary, primaryDeeds]
    exact scripted_evalExpr e

/-- Calls do what the functions do, behind the deeds of the callee and of the arguments. -/
theorem scripted_evalItem : ∀ i : Item,
    Scripted g V (fun o => V o.value) (evalItem g verb noun i) (itemDeeds g verb deeds noun i)
  | .primary p => by
    rw [evalItem, itemDeeds]
    exact scripted_evalPrimary p
  | .invoke callee => by
    rw [evalItem, itemDeeds]
    exact .bind (scripted_evalPrimary callee) fun callee _ =>
      scripted_callNamed g hV noun callee.value (hV.of_nil rfl)
  | .apply callee arguments => by
    rw [evalItem, itemDeeds]
    exact .bind (scripted_evalPrimary callee) fun callee _ =>
      .bind (scripted_evalExpr arguments) fun _ => scripted_callNamed g hV noun callee.value

/-- The items of a term are joined one by one to what is there already. -/
theorem scripted_evalTermOnto : ∀ (t : Term) (acc : Operand), V acc.value →
    Scripted g V (fun o => V o.value) (evalTermOnto g verb noun acc t)
      (termOntoDeeds g verb deeds noun acc t)
  | .item i, acc, hacc => by
    rw [evalTermOnto, termOntoDeeds]
    exact .last (scripted_evalItem i) fun _ _ => scripted_combine g hV noun hacc _ _
  | .join i rest, acc, hacc => by
    have hfirst := (scripted_evalItem i).last fun o _ =>
      scripted_combine g hV noun hacc .union o
    rw [evalTermOnto, termOntoDeeds]
    rw [← bind_assoc]
    exact hfirst.bind fun acc hacc => scripted_evalTermOnto rest acc hacc

theorem scripted_evalTerm : ∀ t : Term,
    Scripted g V (fun o => V o.value) (evalTerm g verb noun t) (termDeeds g verb deeds noun t)
  | .item i => by
    rw [evalTerm, termDeeds]
    exact scripted_evalItem i
  | .join i rest => by
    rw [evalTerm, termDeeds]
    exact .bind (scripted_evalItem i) fun first hfirst => scripted_evalTermOnto rest first hfirst

/-- Both sides of an operator are evaluated, the left one first. -/
theorem scripted_evalExpr : ∀ e : Expr,
    Scripted g V (fun o => V o.value) (evalExpr g verb noun e) (exprDeeds g verb deeds noun e)
  | .term t => by
    rw [evalExpr, exprDeeds]
    exact scripted_evalTerm t
  | .binary left op right => by
    rw [evalExpr, exprDeeds]
    exact .bind (scripted_evalExpr left) fun _ hl => .last (scripted_evalTerm right) fun _ _ =>
      scripted_combine g hV noun hl op _

end

/-- An expression that is left out stands for the empty value. -/
theorem scripted_evalOptional (e : Option Expr) :
    Scripted g V (fun o => V o.value) (evalOptional g verb noun e)
      (optionalDeeds g verb deeds noun e) := by
  cases e with
  | none => exact .pure (hV.of_nil rfl)
  | some e => exact scripted_evalExpr g hV verb deeds hverb noun e

omit hverb in
/-- The values of several nouns are looked at, and joined. -/
theorem scripted_uniteValues (names : List String) {acc : Operand} (hacc : V acc.value) :
    Scripted g V (fun o => V o.value) (uniteValues g acc names) .none := by
  induction names generalizing acc with
  | nil => exact .pure hacc
  | cons name rest ih =>
    exact .look (d := .none) name (fun _ => rfl) fun _ _ => ih (hV.combine hacc .union)

/-- What a condition asks about is evaluated. If nouns come of it, their values are taken. -/
theorem scripted_subject (e : Expr) :
    Scripted g V (fun o => V o.value) (subject g verb noun (some e))
      (optionalDeeds g verb deeds noun (some e)) := by
  refine .last (scripted_evalExpr g hV verb deeds hverb noun e) fun o ho => ?_
  split
  · exact .pure ho
  · exact scripted_uniteValues g hV _ (hV.of_nil rfl)

/-- A condition without a subject looks at the noun at hand. -/
theorem scripted_evalCondition (c : Condition) :
    Scripted g V (fun _ => True) (evalCondition g verb noun c)
      (conditionDeeds g verb deeds noun c) := by
  cases c with
  | always => exact .pure trivial
  | bare e => exact .map (scripted_evalExpr g hV verb deeds hverb noun e) fun _ _ => trivial
  | compare s c v =>
    have hobject : ∀ s : Operand, Scripted g V (fun _ => True)
        (evalOptional g verb noun v >>= fun v => pure (s.compare c v))
        (optionalDeeds g verb deeds noun v) := fun s =>
      .map (scripted_evalOptional g hV verb deeds hverb noun v) fun _ _ => trivial
    cases s with
    | none => exact .look noun (fun _ => rfl) fun v _ => hobject ⟨v, false⟩
    | some e =>
      exact .bind (scripted_subject g hV verb deeds hverb noun e) fun s _ => hobject s

/-- Without a target an action is meant for the noun at hand. -/
theorem scripted_targetsOf (e : Option Expr) :
    Scripted g V (fun _ => True) (targetsOf g verb noun e) (optionalDeeds g verb deeds noun e) := by
  cases e with
  | none => exact .pure trivial
  | some e => exact .map (scripted_evalExpr g hV verb deeds hverb noun e) fun _ _ => trivial

omit hV hverb in
/-- Each target is changed by the same value. -/
theorem scripted_forM_changeNoun (c : Change) {v : Value} (hv : V v) (targets : List String) :
    Scripted g V (fun _ => True) (targets.forM (changeNoun g c v)) fun _ =>
      targets.map fun target => .change target c v := by
  induction targets with
  | nil => exact .pure trivial
  | cons target targets ih => exact .bind (.change target c hv) fun _ _ => ih

/-- An action evaluates its targets, then its value, and then changes the targets in turn. -/
theorem scripted_runAction (a : Action) :
    Scripted g V (fun _ => True) (runAction g verb noun a) (actionDeeds g verb deeds noun a) := by
  cases a with
  | bare e => exact .map (scripted_evalExpr g hV verb deeds hverb noun e) fun _ _ => trivial
  | change target c v =>
    refine .bind (scripted_targetsOf g hV verb deeds hverb noun target) fun targets _ =>
      .bind (scripted_evalOptional g hV verb deeds hverb noun v) fun v hv => ?_
    have hchanges := scripted_forM_changeNoun g c hv targets
    dsimp only
    split
    · exact .after (.problem noun _) fun _ _ => hchanges
    · exact hchanges

/-- A condition and an instruction do what is in them, and an invalid segment does nothing. -/
theorem scripted_evalSegment (s : Segment) :
    Scripted g V (fun _ => True) (evalSegment g verb noun s)
      (segmentDeeds g verb deeds noun s) := by
  cases s with
  | condition c =>
    exact .map (scripted_evalCondition g hV verb deeds hverb noun c) fun _ _ => trivial
  | instruction i =>
    rw [evalSegment, segmentDeeds]
    cases i.action with
    | none => exact .pure trivial
    | some a => exact .map (scripted_runAction g hV verb deeds hverb noun a) fun _ _ => trivial
  | invalid => exact .pure trivial

/-- The segments behind a verdict are evaluated as long as the connectors go on. -/
theorem scripted_evalSegments (rest : List (Connector × Segment)) (v : Verdict) :
    Scripted g V (fun _ => True) (evalSegments g verb noun v rest)
      (segmentsDeeds g verb deeds noun v rest) := by
  induction rest generalizing v with
  | nil => exact .pure trivial
  | cons s rest ih =>
    rw [evalSegments, segmentsDeeds]
    split
    · exact .bind (scripted_evalSegment g hV verb deeds hverb noun s.2) fun _ _ => ih _
    · exact .pure trivial

theorem scripted_evalChain (c : Chain) :
    Scripted g V (fun _ => True) (evalChain g verb noun c) (chainDeeds g verb deeds noun c) :=
  .bind (scripted_evalSegment g hV verb deeds hverb noun c.first) fun first _ =>
    scripted_evalSegments g hV verb deeds hverb noun c.rest first

omit hV hverb in
/-- The errors in a script are reported, and nothing is done. -/
theorem scripted_readScript (script : String) :
    Scripted g V (fun _ => True) (readScript noun script) .none := by
  have hreports : ∀ errors : List (Located SyntaxError), Scripted g V (fun _ => True)
      (errors.forM fun e => Run.problem noun (.syntaxError e.value script)) .none := by
    intro errors
    induction errors with
    | nil => exact .pure trivial
    | cons e errors ih => exact .last (.problem noun _) fun _ _ => ih
  exact .map (hreports _) fun _ _ => trivial

/-- A blank script does nothing; any other one is read, and then evaluated. -/
theorem scripted_evalScript (script : String) :
    Scripted g V (fun _ => True) (evalScript g verb noun script)
      (scriptDeeds g verb deeds noun script) := by
  rw [evalScript, scriptDeeds]
  split
  · exact .pure trivial
  · exact .after (scripted_readScript g noun script) fun chain _ =>
      scripted_evalChain g hV verb deeds hverb noun chain

/-! ### Blocks -/

/-- A text is shown. A script is evaluated; its children are run if it holds. -/
theorem scripted_runBlock (b : Block) {body : Run σ Nat} {d : Deeds σ}
    (hbody : Scripted g V (fun _ => True) body d) :
    Scripted g V (fun _ => True) (runBlock g verb noun b body)
      (blockDeeds g verb deeds noun b d) := by
  rw [runBlock, blockDeeds]
  split
  · exact .map (.print _) fun _ _ => trivial
  · refine .after (scripted_readScript g noun b.expression) fun chain _ => ?_
    have hchain := scripted_evalChain g hV verb deeds hverb noun chain
    split
    · refine .bind hchain fun v _ => ?_
      split
      · exact .map hbody fun _ _ => trivial
      · exact .pure trivial
    · split
      · exact .map (.problem noun _) fun _ _ => trivial
      · exact .map hchain fun _ _ => trivial

omit hV hverb in
/-- Another branch is run if the condition in front of it did not hold, and reported if there is
none. -/
theorem scripted_runElse (branch : Option Bool) {body : Run σ Nat} {d : Deeds σ}
    (hbody : Scripted g V (fun _ => True) body d) :
    Scripted g V (fun _ => True) (runElse noun branch body) (elseDeeds branch d) := by
  match branch with
  | some false => exact .map hbody fun _ _ => trivial
  | some true => exact .pure trivial
  | none => exact .map (.problem noun _) fun _ _ => trivial

/-- Blocks are run one behind the other, by recursion on the forest, until one asks to break out. -/
theorem scripted_runForest (blocks : Forest) (branch : Option Bool) :
    Scripted g V (fun _ => True) (runForest g verb noun branch blocks)
      (forestDeeds g verb deeds noun branch blocks) := by
  induction blocks generalizing branch with
  | nil => exact .pure trivial
  | node b children rest ihChildren ihRest =>
    rw [runForest, forestDeeds]
    have hbehind : ∀ x : Bool × Nat, Scripted g V (fun _ => True)
        (if x.2 = 0 then runForest g verb noun (branchAfter branch b x.1) rest
          else pure (x.2 - 1))
        (if x.2 = 0 then forestDeeds g verb deeds noun (branchAfter branch b x.1) rest
          else .none) := by
      intro x
      split
      · exact ihRest _
      · exact .pure trivial
    dsimp only
    split
    · exact .bind (scripted_runElse g noun branch (ihChildren none)) fun x _ => hbehind x
    · exact .bind (scripted_runBlock g hV verb deeds hverb noun b (ihChildren none)) fun x _ =>
        hbehind x

/-! ### Verbs -/

/-- The guard of a verb is a script at the root of the verb. -/
theorem scripted_verbAvailable (page : Page) (root : Nat) :
    Scripted g V (fun _ => True) (verbAvailable g verb page root)
      (availabilityDeeds g verb deeds page root) := by
  rw [verbAvailable, availabilityDeeds]
  cases page.block? root with
  | none => exact .pure trivial
  | some b =>
    exact .map (scripted_evalScript g hV verb deeds hverb page.name b.expression) fun _ _ => trivial

/-- A verb that is available has its blocks run, and any other one only its guard. -/
theorem scripted_runRoot (page : Page) (root : Nat) :
    Scripted g V (fun _ => True) (runRoot g verb page root) (rootDeeds g verb deeds page root) := by
  refine .bind (scripted_verbAvailable g hV verb deeds hverb page root) fun ok _ => ?_
  split
  · exact .map (scripted_runForest g hV verb deeds hverb page.name _ none) fun _ _ => trivial
  · exact .pure trivial

end Expr

/-- Running a verb is put together from the known steps, down to the depth that is left. -/
theorem scripted_runVerb (g : Setting σ) {V : Value → Prop} (hV : Value.Lasting V) (depth : Nat)
    (noun name : String) :
    Scripted g V (fun _ => True) (runVerb g depth noun name) (verbDeeds g depth noun name) := by
  induction depth generalizing noun name with
  | zero =>
    rw [runVerb, verbDeeds]
    cases g.story.lookup noun with
    | error d => exact .map (.report d) fun _ _ => trivial
    | ok page =>
      dsimp only
      cases page.findVerb? name with
      | none => exact .map (.problem noun _) fun _ _ => trivial
      | some v => exact .map (.problem noun _) fun _ _ => trivial
  | succ depth ih =>
    rw [runVerb, verbDeeds]
    cases g.story.lookup noun with
    | error d => exact .map (.report d) fun _ _ => trivial
    | ok page =>
      dsimp only
      cases page.findVerb? name with
      | none => exact .map (.problem noun _) fun _ _ => trivial
      | some v => exact scripted_runRoot g hV _ _ ih page v.root

end Gamebook
