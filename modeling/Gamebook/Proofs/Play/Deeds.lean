import Gamebook.Play.Verb

/-!
# Deeds

Most of what a run does is to look and to compute. What is left are its *deeds*: it changes the
value of a noun, or it calls a function. The deeds of a run, in their order, depend on the stage
that it starts from. The functions of this module follow those of evaluation one by one and collect
the deeds on the way; where the deeds behind a part of a run depend on its answer, that part is run.
-/

namespace Gamebook

open Script

variable {σ α : Type}

/-- A step of a run that may leave a trace. -/
inductive Deed where
  /-- A noun was told to change. -/
  | change (noun : String) (c : Change) (v : Value)
  /-- A function was called, and gave an answer. -/
  | call (f : Function) (args answer : Operand)
  deriving DecidableEq, Repr

/-- The deeds of a part of a run, by the stage at its beginning. -/
abbrev Deeds (σ : Type) := Stage σ → List Deed

namespace Deeds

/-- Nothing is done. -/
def none : Deeds σ := fun _ => []

/-- What is done behind a part of a run that itself does nothing. -/
def after (m : Run σ α) (e : α → Deeds σ) : Deeds σ := fun s =>
  e (m.run s).1 (m.run s).2

/-- What is done in a part of a run and behind it. -/
def andThen (d : Deeds σ) (m : Run σ α) (e : α → Deeds σ) : Deeds σ := fun s =>
  d s ++ after m e s

theorem andThen_none (d : Deeds σ) (m : Run σ α) : (d.andThen m fun _ => none) = d := by
  funext s
  exact List.append_nil (d s)

end Deeds

/-! ### Functions -/

/-- Calling a function is a deed. -/
def callDeeds (b : Book σ) (noun : String) (f : Function) (args : Operand) : Deeds σ := fun s =>
  [.call f args ((f.call b noun args).run s).1]

/-- The deeds of calling functions one after the other. -/
def callAllDeeds (b : Book σ) (noun : String) (args : Operand) : List String → Deeds σ
  | [] => .none
  | name :: rest => match Function.ofName? name with
    | some f => (callDeeds b noun f args).andThen (f.call b noun args) fun args =>
      callAllDeeds b noun args rest
    | none => .none

/-! ### Expressions -/

section Expr

variable (g : Setting σ) (verb : String → String → Run σ Bool) (deeds : String → String → Deeds σ)
  (noun : String)

mutual

/-- The deeds of evaluating a primary; `deeds` are those of running a verb. -/
def primaryDeeds : Primary → Deeds σ
  | .atom _ | .integer _ | .integerOf _ | .deref _ => .none
  | .verbCall target name => deeds (target.getD noun) name
  | .group e => exprDeeds e

/-- The deeds of evaluating an item. -/
def itemDeeds : Item → Deeds σ
  | .primary p => primaryDeeds p
  | .invoke callee =>
    (primaryDeeds callee).andThen (evalPrimary g verb noun callee) fun callee =>
      callAllDeeds g.book noun {} callee.value.atoms
  | .apply callee arguments =>
    (primaryDeeds callee).andThen (evalPrimary g verb noun callee) fun callee =>
      (exprDeeds arguments).andThen (evalExpr g verb noun arguments) fun args =>
        callAllDeeds g.book noun args callee.value.atoms

/-- The deeds of uniting a value with those of the items of a term. -/
def termOntoDeeds (acc : Operand) : Term → Deeds σ
  | .item i => itemDeeds i
  | .join i rest =>
    (itemDeeds i).andThen (do combine noun acc .union (← evalItem g verb noun i)) fun acc =>
      termOntoDeeds acc rest

/-- The deeds of evaluating a term. -/
def termDeeds : Term → Deeds σ
  | .item i => itemDeeds i
  | .join i rest =>
    (itemDeeds i).andThen (evalItem g verb noun i) fun first => termOntoDeeds first rest

/-- The deeds of evaluating an expression. -/
def exprDeeds : Expr → Deeds σ
  | .term t => termDeeds t
  | .binary left _ right =>
    (exprDeeds left).andThen (evalExpr g verb noun left) fun _ => termDeeds right

end

/-- The deeds of evaluating an expression that may be missing. -/
def optionalDeeds : Option Expr → Deeds σ
  | some e => exprDeeds g verb deeds noun e
  | none => .none

/-! ### Conditions and instructions -/

/-- The deeds of evaluating a condition. -/
def conditionDeeds : Condition → Deeds σ
  | .always => .none
  | .bare e => exprDeeds g verb deeds noun e
  | .compare s _ v =>
    (optionalDeeds g verb deeds noun s).andThen (subject g verb noun s) fun _ =>
      optionalDeeds g verb deeds noun v

/-- The deeds of carrying out an action. -/
def actionDeeds : Action → Deeds σ
  | .bare e => exprDeeds g verb deeds noun e
  | .change target c v =>
    (optionalDeeds g verb deeds noun target).andThen (targetsOf g verb noun target) fun targets =>
      (optionalDeeds g verb deeds noun v).andThen (evalOptional g verb noun v) fun v _ =>
        targets.map fun target => .change target c v.value

/-! ### Chains -/

/-- The deeds of evaluating a segment. -/
def segmentDeeds : Segment → Deeds σ
  | .condition c => conditionDeeds g verb deeds noun c
  | .instruction i => match i.action with
    | some a => actionDeeds g verb deeds noun a
    | none => .none
  | .invalid => .none

/-- The deeds of evaluating the segments behind some that came to a verdict. -/
def segmentsDeeds (v : Verdict) : List (Connector × Segment) → Deeds σ
  | [] => .none
  | (connector, s) :: rest =>
    if connector.goesOn v.holds then
      (segmentDeeds g verb deeds noun s).andThen (evalSegment g verb noun s) fun next =>
        segmentsDeeds ⟨next.holds, max v.breaks next.breaks⟩ rest
    else .none

/-- The deeds of evaluating a chain. -/
def chainDeeds (c : Chain) : Deeds σ :=
  (segmentDeeds g verb deeds noun c.first).andThen (evalSegment g verb noun c.first) fun first =>
    segmentsDeeds g verb deeds noun first c.rest

/-- The deeds of evaluating a stored script. -/
def scriptDeeds (script : String) : Deeds σ :=
  if Text.isBlank script.toList then .none
  else .after (readScript noun script) (chainDeeds g verb deeds noun)

/-! ### Blocks -/

/-- The deeds of running a block; `body` are those of running its children. -/
def blockDeeds (b : Block) (body : Deeds σ) : Deeds σ :=
  if !b.isExecuted || !b.isBracketed then .none
  else .after (readScript noun b.expression) fun chain =>
    if b.hasChildren then
      (chainDeeds g verb deeds noun chain).andThen (evalChain g verb noun chain) fun v =>
        if v.holds then body else .none
    else if chain.isCondition then .none
    else chainDeeds g verb deeds noun chain

/-- The deeds of running a scope that stands for the other branch. -/
def elseDeeds (branch : Option Bool) (body : Deeds σ) : Deeds σ :=
  match branch with
  | some false => body
  | _ => .none

/-- The deeds of running blocks in their order. -/
def forestDeeds (branch : Option Bool) : Forest → Deeds σ
  | .nil => .none
  | .node b children rest =>
    let body := runForest g verb noun none children
    let bodyDeeds := forestDeeds none children
    let behind : Bool × Nat → Deeds σ := fun (ran, breaks) =>
      if breaks = 0 then forestDeeds (branchAfter branch b ran) rest else .none
    if b.isElse then (elseDeeds branch bodyDeeds).andThen (runElse noun branch body) behind
    else (blockDeeds g verb deeds noun b bodyDeeds).andThen (runBlock g verb noun b body) behind

/-! ### Verbs -/

/-- The deeds of asking whether a verb is on offer. -/
def availabilityDeeds (page : Page) (root : Nat) : Deeds σ :=
  match page.block? root with
  | some b => scriptDeeds g verb deeds page.name b.expression
  | none => .none

/-- The deeds of running the verb at a root. -/
def rootDeeds (page : Page) (root : Nat) : Deeds σ :=
  (availabilityDeeds g verb deeds page root).andThen (verbAvailable g verb page root) fun ok =>
    if ok then forestDeeds g verb deeds page.name none (page.below root) else .none

end Expr

/-- The deeds of running a verb of a noun while `depth` more verbs may be running. -/
def verbDeeds (g : Setting σ) : Nat → String → String → Deeds σ
  | 0, _, _ => .none
  | depth + 1, noun, name => match g.story.lookup noun with
    | .error _ => .none
    | .ok page => match page.findVerb? name with
      | none => .none
      | some v => rootDeeds g (runVerb g depth) (verbDeeds g depth) page v.root

end Gamebook
