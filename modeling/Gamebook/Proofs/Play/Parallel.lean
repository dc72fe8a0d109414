import Gamebook.Proofs.Play.Wording

/-!
# Runs side by side

The same part of a story can be run in two books, on stages that agree in all but the states of
these. If the states match, and keep doing so whatever the two books are asked for, then both runs
have the same answer, and the stages that they leave agree again (`Run.Along`). At the same time it
is told of what kind the reports are.

This goes through evaluation part by part. With one book on both sides it says what a run may
report; with a book that is watched on one side, that being watched makes no difference.
-/

namespace Gamebook

open Script

variable {σ τ α β : Type}

/-! ### Books and stages -/

/-- Whether two books answer alike while their states match, which they go on to do. -/
structure Book.Matches (H : σ → τ → Prop) (b : Book σ) (c : Book τ) : Prop where
  play : ∀ asset {x y}, H x y → H (b.play asset x) (c.play asset y)
  stop : ∀ asset {x y}, H x y → H (b.stop asset x) (c.stop asset y)
  select : ∀ options {x y}, H x y → (b.select options x).1 = (c.select options y).1 ∧
    H (b.select options x).2 (c.select options y).2
  openMenu : ∀ name {x y}, H x y → H (b.openMenu name x) (c.openMenu name y)
  closeMenu : ∀ {x y}, H x y → H (b.closeMenu x) (c.closeMenu y)
  openBook : ∀ name {x y}, H x y → (b.openBook name x).1 = (c.openBook name y).1 ∧
    H (b.openBook name x).2 (c.openBook name y).2
  closeBook : ∀ {x y}, H x y → H (b.closeBook x) (c.closeBook y)
  quit : ∀ {x y}, H x y → H (b.quit x) (c.quit y)
  books : ∀ {x y}, H x y → b.books x = c.books y
  inGame : ∀ {x y}, H x y → b.inGame x = c.inGame y
  sessions : ∀ {x y}, H x y → b.sessions x = c.sessions y
  save : ∀ session {x y}, H x y → (b.save session x).1 = (c.save session y).1 ∧
    H (b.save session x).2 (c.save session y).2
  load : ∀ name {x y}, H x y → (b.load name x).1 = (c.load name y).1 ∧
    H (b.load name x).2 (c.load name y).2
  dialog : ∀ message {x y}, H x y → (b.dialog message x).1 = (c.dialog message y).1 ∧
    H (b.dialog message x).2 (c.dialog message y).2
  input : ∀ prompt {x y}, H x y → (b.input prompt x).1 = (c.input prompt y).1 ∧
    H (b.input prompt x).2 (c.input prompt y).2

/-- A book matches itself. -/
theorem Book.matches_self (b : Book σ) : b.Matches Eq b where
  play _ := congrArg _
  stop _ := congrArg _
  select _ _ _ h := h ▸ ⟨rfl, rfl⟩
  openMenu _ := congrArg _
  closeMenu := congrArg _
  openBook _ _ _ h := h ▸ ⟨rfl, rfl⟩
  closeBook := congrArg _
  quit := congrArg _
  books := congrArg _
  inGame := congrArg _
  sessions := congrArg _
  save _ _ _ h := h ▸ ⟨rfl, rfl⟩
  load _ _ _ h := h ▸ ⟨rfl, rfl⟩
  dialog _ _ _ h := h ▸ ⟨rfl, rfl⟩
  input _ _ _ h := h ▸ ⟨rfl, rfl⟩

/-- The same setting with another book. -/
def Setting.inBook (g : Setting σ) (c : Book τ) : Setting τ :=
  ⟨g.story, c, g.maxDepth⟩

/-- Whether two stages agree, the states of the books excepted, which match. The reports are of one
kind. -/
structure Stage.Agrees (H : σ → τ → Prop) (P : Diagnostic → Prop) (s : Stage σ) (t : Stage τ) :
    Prop where
  session : s.session = t.session
  host : H s.host t.host
  output : s.output = t.output
  diagnostics : s.diagnostics = t.diagnostics
  bookmark : s.bookmark = t.bookmark
  reports : ∀ d ∈ s.diagnostics, P d

/-! ### Reports -/

/-- What is reported of a problem with the page of a noun. -/
def RunProblem.diagnostic (p : RunProblem) (noun : String) : Diagnostic :=
  ⟨p.severity, ⟨0, 0⟩, p.message, some s!"in [{noun}]"⟩

/-- Whether a problem is about the spelling of a script. -/
def RunProblem.isSyntax : RunProblem → Bool
  | .syntaxError _ _ => true
  | _ => false

/-- Whether all that is reported of the spelling of a script is of a kind. -/
def Script.Permits (P : Diagnostic → Prop) (noun script : String) : Prop :=
  ∀ e ∈ (Chain.ofText script).2, P ((RunProblem.syntaxError e.value script).diagnostic noun)

/-- Whether all that a story can report while it runs is of a kind. -/
structure Story.Reports (P : Diagnostic → Prop) (story : Story) : Prop where
  problem : ∀ noun (p : RunProblem), p.isSyntax = false → P (p.diagnostic noun)
  lookup : ∀ noun d, story.lookup noun = .error d → P d
  blocks : ∀ noun page, story.page? noun = some page → ∀ b ∈ page.blocks, b.isExecuted →
    Permits P page.name b.expression
  guards : ∀ noun page, story.page? noun = some page → ∀ v ∈ page.verbs, ∀ b,
    page.block? v.root = some b → Permits P page.name b.expression

/-! ### Parts of runs -/

/-- Two parts of runs that have the same answer, and lead from stages that agree to such. -/
def Run.Along (H : σ → τ → Prop) (P : Diagnostic → Prop) (m : Run σ α) (n : Run τ α) : Prop :=
  ∀ (s : Stage σ) (t : Stage τ), s.Agrees H P t →
    (m.run s).1 = (n.run t).1 ∧ (m.run s).2.Agrees H P (n.run t).2

namespace Run.Along

variable {H : σ → τ → Prop} {P : Diagnostic → Prop} {m : Run σ α} {n : Run τ α}

theorem pure (a : α) : Along H P (Pure.pure a : Run σ α) (Pure.pure a : Run τ α) :=
  fun _ _ h => ⟨rfl, h⟩

/-- Both sides go on with the same answer. -/
theorem bind {f : α → Run σ β} {f' : α → Run τ β} (hm : Along H P m n)
    (hf : ∀ a, Along H P (f a) (f' a)) : Along H P (m >>= f) (n >>= f') := by
  intro s t h
  obtain ⟨hanswer, hstage⟩ := hm s t h
  rw [run_bind, run_bind, ← hanswer]
  exact hf _ _ _ hstage

/-- Computing something of the answer of a part. -/
theorem map (f : α → β) (hm : Along H P m n) :
    Along H P (m >>= fun a => Pure.pure (f a)) (n >>= fun a => Pure.pure (f a)) :=
  hm.bind fun a => .pure (f a)

/-- What is reported on both sides has to be of the kind. -/
theorem report {d : Diagnostic} (hd : P d) :
    Along H P (Run.report d : Run σ Unit) (Run.report d : Run τ Unit) := by
  refine fun s t h => ⟨rfl, h.session, h.host, h.output, ?_, h.bookmark, fun x hx => ?_⟩
  · exact congrArg (· ++ [d]) h.diagnostics
  · rcases List.mem_append.mp hx with hx | hx
    · exact h.reports x hx
    · exact List.mem_singleton.mp hx ▸ hd

theorem problem {noun : String} {p : RunProblem} (hp : P (p.diagnostic noun)) :
    Along H P (Run.problem noun p : Run σ Unit) (Run.problem noun p : Run τ Unit) :=
  report hp

/-- The same text is shown on both sides. -/
theorem print (text : String) :
    Along H P (Run.print text : Run σ Unit) (Run.print text : Run τ Unit) :=
  fun _ _ h => ⟨rfl, h.session, h.host, congrArg (· ++ text) h.output, h.diagnostics, h.bookmark,
    h.reports⟩

theorem session : Along H P (Run.session : Run σ Session) (Run.session : Run τ Session) :=
  fun _ _ h => ⟨h.session, h⟩

/-- Sessions that are the same are changed alike. -/
theorem modifySession (f : Session → Session) :
    Along H P (Run.modifySession f : Run σ Unit) (Run.modifySession f : Run τ Unit) :=
  fun _ _ h => ⟨rfl, congrArg f h.session, h.host, h.output, h.diagnostics, h.bookmark, h.reports⟩

/-- A bookmark is asked for. -/
theorem setBookmark (bookmark : Option (Option String)) :
    Along H P (modify fun s => { s with bookmark } : Run σ Unit)
      (modify fun s => { s with bookmark } : Run τ Unit) :=
  fun _ _ h => ⟨rfl, h.session, h.host, h.output, h.diagnostics, rfl, h.reports⟩

/-- The states match after both books were told something, if they did before. -/
theorem tell {f : σ → σ} {f' : τ → τ} (hf : ∀ {x y}, H x y → H (f x) (f' y)) :
    Along H P (Run.tell f) (Run.tell f') :=
  fun _ _ h => ⟨rfl, h.session, hf h.host, h.output, h.diagnostics, h.bookmark, h.reports⟩

/-- Books in states that match give the same answer. -/
theorem ask {f : σ → α} {f' : τ → α} (hf : ∀ {x y}, H x y → f x = f' y) :
    Along H P (Run.ask f) (Run.ask f') :=
  fun _ _ h => ⟨hf h.host, h⟩

/-- A call has the same answer on both sides, and leaves states that match. -/
theorem call {f : σ → α × σ} {f' : τ → α × τ}
    (hf : ∀ {x y}, H x y → (f x).1 = (f' y).1 ∧ H (f x).2 (f' y).2) :
    Along H P (Run.call f) (Run.call f') := by
  intro s t h
  obtain ⟨hanswer, hhost⟩ := hf h.host
  exact ⟨hanswer, h.session, hhost, h.output, h.diagnostics, h.bookmark, h.reports⟩

/-- A row of parts. -/
theorem forM {as : List α} {f : α → Run σ Unit} {f' : α → Run τ Unit}
    (hf : ∀ a ∈ as, Along H P (f a) (f' a)) : Along H P (as.forM f) (as.forM f') := by
  induction as with
  | nil => exact .pure ()
  | cons a as ih =>
    exact (hf a List.mem_cons_self).bind fun _ => ih fun b hb => hf b (List.mem_cons_of_mem a hb)

end Run.Along

/-! ### Functions -/

variable {H : σ → τ → Prop} {P : Diagnostic → Prop}

namespace Function

variable {b : Book σ} {c : Book τ} (hbook : b.Matches H c)

/-- Whether an action is under way, and which one is the last, is told by the session. -/
theorem along_placeBookmark (description : Option String) :
    Run.Along H P (placeBookmark description : Run σ Operand)
      (placeBookmark description : Run τ Operand) := by
  refine .bind .session fun s => ?_
  split
  · exact .bind (.setBookmark _) fun _ => .pure _
  · split
    · exact .bind (.modifySession _) fun _ => .pure _
    · exact .pure _

include hbook

/-- Both books are told of each asset, as it is switched. -/
theorem along_switchAssets (on : Bool) (assets : List String) :
    Run.Along H P (switchAssets b on assets) (switchAssets c on assets) := by
  refine .forM fun asset _ => .bind (.modifySession _) fun _ => .tell ?_
  cases on with
  | true => exact hbook.play asset
  | false => exact hbook.stop asset

/-- The only problem that a function reports is that the player picked nothing that is there. -/
theorem along_call (hproblem : ∀ noun (p : RunProblem), p.isSyntax = false → P (p.diagnostic noun))
    (noun : String) (f : Function) (args : Operand) :
    Run.Along H P (f.call b noun args) (f.call c noun args) := by
  cases f with
  | size | keyword => exact .pure _
  | play => exact .bind (along_switchAssets hbook true _) fun _ => .pure _
  | stop => exact .bind (along_switchAssets hbook false _) fun _ => .pure _
  | selectValue =>
    refine .bind (.call (hbook.select _)) fun choice => ?_
    cases choice with
    | none => exact .pure _
    | some i =>
      dsimp only
      split
      · exact .pure _
      · exact .bind (.problem (hproblem noun _ rfl)) fun _ => .pure _
  | print =>
    rw [Function.call, Function.call]
    dsimp only
    split
    · exact .pure _
    · exact .bind (.print _) fun _ => .pure _
  | openMenu => exact .bind (.tell (hbook.openMenu _)) fun _ => .pure _
  | closeMenu => exact .bind (.tell hbook.closeMenu) fun _ => .pure _
  | openBook => exact .map _ (.call (hbook.openBook _))
  | closeBook => exact .bind (.tell hbook.closeBook) fun _ => .pure _
  | quit => exact .bind (.tell hbook.quit) fun _ => .pure _
  | getBooks => exact .map _ (.ask hbook.books)
  | isInGame => exact .map _ (.ask hbook.inGame)
  | getSessions => exact .map _ (.ask hbook.sessions)
  | getSessionName => exact .map _ .session
  | saveSession => exact .bind .session fun s => .map _ (.call (hbook.save s))
  | branchSession =>
    exact .bind (.modifySession _) fun _ => .bind .session fun s => .map _ (.call (hbook.save s))
  | loadSession =>
    refine .bind (.call (hbook.load _)) fun t => ?_
    cases t with
    | none => exact .pure _
    | some t => exact .bind (.modifySession _) fun _ => .pure _
  | newSession => exact .bind (.modifySession _) fun _ => .pure _
  | bookmark => exact along_placeBookmark none
  | userBookmark => exact along_placeBookmark _
  | loadSnapshot =>
    refine .bind .session fun s => ?_
    split
    · exact .bind (.modifySession _) fun _ => .pure _
    · exact .pure _
  | getSnapshots => exact .map _ .session
  | getBookmarks => exact .map _ .session
  | getSnapshotIndex => exact .map _ .session
  | dialog => exact .map _ (.call (hbook.dialog _))
  | input =>
    refine .bind (.call (hbook.input _)) fun line => ?_
    cases line with
    | none => exact .pure _
    | some line => exact .pure _

end Function

/-! ### Evaluation -/

section Expr

variable {g : Setting σ} {c : Book τ} (hbook : g.book.Matches H c) (hP : g.story.Reports P)
  {verb : String → String → Run σ Bool} {verb' : String → String → Run τ Bool}
  (hverb : ∀ noun name, Run.Along H P (verb noun name) (verb' noun name)) {noun : String}

include hP

/-- A value is looked up in the session and in the story, which are the same; what cannot be found
is reported. -/
theorem along_valueOf (noun : String) :
    Run.Along H P (g.valueOf noun) ((g.inBook c).valueOf noun) := by
  refine .bind .session fun s => ?_
  cases s.value? noun with
  | some v => exact .pure v
  | none =>
    have hlookup := hP.lookup noun
    dsimp only [Setting.inBook]
    cases h : g.story.lookup noun with
    | ok page => exact .pure _
    | error d => exact .bind (.report (hlookup d h)) fun _ => .pure _

/-- A division by zero is reported on both sides. -/
theorem along_combine (l : Operand) (op : Operator) (r : Operand) :
    Run.Along H P (combine noun l op r : Run σ Operand) (combine noun l op r : Run τ Operand) := by
  rw [combine, combine]
  split
  · exact .bind (.problem (hP.problem noun _ rfl)) fun _ => .pure _
  · exact .pure _

include hbook

/-- A name that is no function is reported on both sides. -/
theorem along_callAll (names : List String) (args : Operand) :
    Run.Along H P (callAll g.book noun args names) (callAll c noun args names) := by
  induction names generalizing args with
  | nil => exact .pure _
  | cons name rest ih =>
    rw [callAll, callAll]
    cases Function.ofName? name with
    | none => exact .bind (.problem (hP.problem noun _ rfl)) fun _ => .pure _
    | some f => exact .bind (Function.along_call hbook hP.problem noun f args) ih

/-- A callee without atoms is reported on both sides. -/
theorem along_callNamed (callee : Value) (args : Operand) :
    Run.Along H P (callNamed g.book noun callee args) (callNamed c noun callee args) := by
  rw [callNamed, callNamed]
  split
  · exact .bind (.problem (hP.problem noun _ rfl)) fun _ => .pure _
  · exact along_callAll hbook hP callee.atoms args

include hverb

set_option linter.unusedSectionVars false in
mutual

/-- By recursion on the syntax. Verbs are called on both sides, and are known to go along. -/
theorem along_evalPrimary : ∀ p : Primary,
    Run.Along H P (evalPrimary g verb noun p) (evalPrimary (g.inBook c) verb' noun p)
  | .atom name | .integer n => by
    rw [evalPrimary, evalPrimary]
    exact .pure _
  | .integerOf name | .deref name => by
    rw [evalPrimary, evalPrimary]
    exact .map _ (along_valueOf hP name)
  | .verbCall target name => by
    rw [evalPrimary, evalPrimary]
    exact .map _ (hverb _ name)
  | .group e => by
    rw [evalPrimary, evalPrimary]
    exact along_evalExpr e

/-- Callee and arguments are evaluated alike, so the same functions are called with the same
value. -/
theorem along_evalItem : ∀ i : Item,
    Run.Along H P (evalItem g verb noun i) (evalItem (g.inBook c) verb' noun i)
  | .primary p => by
    rw [evalItem, evalItem]
    exact along_evalPrimary p
  | .invoke callee => by
    rw [evalItem, evalItem]
    exact .bind (along_evalPrimary callee) fun callee => along_callNamed hbook hP callee.value _
  | .apply callee arguments => by
    rw [evalItem, evalItem]
    exact .bind (along_evalPrimary callee) fun callee =>
      .bind (along_evalExpr arguments) fun args => along_callNamed hbook hP callee.value args

/-- What is there already is the same on both sides. -/
theorem along_evalTermOnto : ∀ (t : Term) (acc : Operand),
    Run.Along H P (evalTermOnto g verb noun acc t) (evalTermOnto (g.inBook c) verb' noun acc t)
  | .item i, acc => by
    rw [evalTermOnto, evalTermOnto]
    exact .bind (along_evalItem i) fun o => along_combine hP acc _ o
  | .join i rest, acc => by
    rw [evalTermOnto, evalTermOnto]
    exact .bind (along_evalItem i) fun o => .bind (along_combine hP acc _ o) fun acc =>
      along_evalTermOnto rest acc

theorem along_evalTerm : ∀ t : Term,
    Run.Along H P (evalTerm g verb noun t) (evalTerm (g.inBook c) verb' noun t)
  | .item i => by
    rw [evalTerm, evalTerm]
    exact along_evalItem i
  | .join i rest => by
    rw [evalTerm, evalTerm]
    exact .bind (along_evalItem i) fun first => along_evalTermOnto rest first

/-- Both sides of an operator go along, and so do their combinations. -/
theorem along_evalExpr : ∀ e : Expr,
    Run.Along H P (evalExpr g verb noun e) (evalExpr (g.inBook c) verb' noun e)
  | .term t => by
    rw [evalExpr, evalExpr]
    exact along_evalTerm t
  | .binary left op right => by
    rw [evalExpr, evalExpr]
    exact .bind (along_evalExpr left) fun l => .bind (along_evalTerm right) fun r =>
      along_combine hP l op r

end

theorem along_evalOptional (e : Option Expr) :
    Run.Along H P (evalOptional g verb noun e) (evalOptional (g.inBook c) verb' noun e) := by
  cases e with
  | none => exact .pure _
  | some e => exact along_evalExpr hbook hP hverb e

/-! ### Conditions and instructions -/

omit hbook hverb in
theorem along_uniteValues (names : List String) (acc : Operand) :
    Run.Along H P (uniteValues g acc names) (uniteValues (g.inBook c) acc names) := by
  induction names generalizing acc with
  | nil => exact .pure _
  | cons name rest ih => exact .bind (along_valueOf hP name) fun v => ih _

/-- The nouns that a condition is about are the same. -/
theorem along_subject (e : Option Expr) :
    Run.Along H P (subject g verb noun e) (subject (g.inBook c) verb' noun e) := by
  cases e with
  | none => exact .map _ (along_valueOf hP noun)
  | some e =>
    refine .bind (along_evalExpr hbook hP hverb e) fun o => ?_
    split
    · exact .pure _
    · exact along_uniteValues hP _ _

/-- A condition comes to the same verdict in both books. -/
theorem along_evalCondition (x : Condition) :
    Run.Along H P (evalCondition g verb noun x) (evalCondition (g.inBook c) verb' noun x) := by
  cases x with
  | always => exact .pure _
  | bare e => exact .map _ (along_evalExpr hbook hP hverb e)
  | compare s x v =>
    exact .bind (along_subject hbook hP hverb s) fun s =>
      .map _ (along_evalOptional hbook hP hverb v)

/-- The same nouns are changed. -/
theorem along_targetsOf (e : Option Expr) :
    Run.Along H P (targetsOf g verb noun e) (targetsOf (g.inBook c) verb' noun e) := by
  cases e with
  | none => exact .pure _
  | some e => exact .map _ (along_evalExpr hbook hP hverb e)

/-- A missing target is reported on both sides; else the same nouns are changed by the same
value. -/
theorem along_runAction (a : Action) :
    Run.Along H P (runAction g verb noun a) (runAction (g.inBook c) verb' noun a) := by
  cases a with
  | bare e => exact .map _ (along_evalExpr hbook hP hverb e)
  | change target x v =>
    refine .bind (along_targetsOf hbook hP hverb target) fun targets =>
      .bind (along_evalOptional hbook hP hverb v) fun v => ?_
    have hchanges : Run.Along H P (targets.forM (changeNoun g x v.value))
        (targets.forM (changeNoun (g.inBook c) x v.value)) := .forM fun _ _ => .modifySession _
    dsimp only
    split
    · exact .bind (.problem (hP.problem noun _ rfl)) fun _ => hchanges
    · exact hchanges

/-! ### Chains -/

theorem along_evalSegment (s : Segment) :
    Run.Along H P (evalSegment g verb noun s) (evalSegment (g.inBook c) verb' noun s) := by
  cases s with
  | condition x => exact .map _ (along_evalCondition hbook hP hverb x)
  | instruction i =>
    rw [evalSegment, evalSegment]
    cases i.action with
    | none => exact .pure _
    | some a => exact .bind (along_runAction hbook hP hverb a) fun _ => .pure _
  | invalid => exact .pure _

/-- Evaluation goes on behind the same connectors. -/
theorem along_evalSegments (rest : List (Connector × Segment)) (v : Verdict) :
    Run.Along H P (evalSegments g verb noun v rest)
      (evalSegments (g.inBook c) verb' noun v rest) := by
  induction rest generalizing v with
  | nil => exact .pure _
  | cons s rest ih =>
    rw [evalSegments, evalSegments]
    split
    · exact .bind (along_evalSegment hbook hP hverb s.2) fun _ => ih _
    · exact .pure _

theorem along_evalChain (x : Chain) :
    Run.Along H P (evalChain g verb noun x) (evalChain (g.inBook c) verb' noun x) :=
  .bind (along_evalSegment hbook hP hverb x.first) fun first =>
    along_evalSegments hbook hP hverb x.rest first

omit hbook hP hverb in
/-- The errors of a script are reported, and these have to be of the kind. -/
theorem along_readScript {script : String} (h : Permits P noun script) :
    Run.Along H P (readScript noun script : Run σ Chain) (readScript noun script : Run τ Chain) :=
  .bind (.forM fun e he => .problem (h e he)) fun _ => .pure _

/-- A blank script is not read at all. -/
theorem along_evalScript {script : String} (h : Permits P noun script) :
    Run.Along H P (evalScript g verb noun script) (evalScript (g.inBook c) verb' noun script) := by
  rw [evalScript, evalScript]
  split
  · exact .pure _
  · exact .bind (along_readScript h) fun x => along_evalChain hbook hP hverb x

/-! ### Blocks -/

/-- A block runs along if its children do. -/
theorem along_runBlock {b : Block} (h : b.isExecuted → Permits P noun b.expression)
    {body : Run σ Nat} {body' : Run τ Nat} (hbody : Run.Along H P body body') :
    Run.Along H P (runBlock g verb noun b body) (runBlock (g.inBook c) verb' noun b body') := by
  rw [runBlock, runBlock]
  split
  · exact .bind (.print _) fun _ => .pure _
  next hshown =>
    rw [Bool.or_eq_true, not_or, Bool.not_eq_true', Bool.not_eq_false] at hshown
    refine .bind (along_readScript (h hshown.1)) fun x => ?_
    have hchain : Run.Along H P (evalChain g verb noun x) (evalChain (g.inBook c) verb' noun x) :=
      along_evalChain hbook hP hverb x
    split
    · refine .bind hchain fun v => ?_
      split
      · exact .map _ hbody
      · exact .pure _
    · split
      · exact .bind (.problem (hP.problem noun _ rfl)) fun _ => .pure _
      · exact .map _ hchain

omit hbook hverb in
/-- A branch without a condition in front is reported on both sides. -/
theorem along_runElse (branch : Option Bool) {body : Run σ Nat} {body' : Run τ Nat}
    (hbody : Run.Along H P body body') :
    Run.Along H P (runElse noun branch body) (runElse noun branch body') := by
  match branch with
  | some false => exact .map _ hbody
  | some true => exact .pure _
  | none => exact .bind (.problem (hP.problem noun _ rfl)) fun _ => .pure _

/-- Blocks break out to the same depth, by recursion on the forest. -/
theorem along_runForest {blocks : Forest}
    (h : blocks.All fun b => b.isExecuted → Permits P noun b.expression) (branch : Option Bool) :
    Run.Along H P (runForest g verb noun branch blocks)
      (runForest (g.inBook c) verb' noun branch blocks) := by
  induction blocks generalizing branch with
  | nil => exact .pure _
  | node b children rest ihChildren ihRest =>
    obtain ⟨hb, hchildren, hrest⟩ := h
    have hbehind : ∀ x : Bool × Nat, Run.Along H P
        (if x.2 = 0 then runForest g verb noun (branchAfter branch b x.1) rest
          else pure (x.2 - 1))
        (if x.2 = 0 then runForest (g.inBook c) verb' noun (branchAfter branch b x.1) rest
          else pure (x.2 - 1)) := by
      intro x
      split
      · exact ihRest hrest _
      · exact .pure _
    rw [runForest, runForest]
    dsimp only
    split
    · exact .bind (along_runElse hP branch (ihChildren hchildren none)) hbehind
    · exact .bind (along_runBlock hbook hP hverb hb (ihChildren hchildren none)) hbehind

/-! ### Verbs -/

/-- The guard of a verb is of its page, and so its errors are of the kind. -/
theorem along_verbAvailable {page : Page} (hpage : g.story.page? noun = some page) {v : Verb}
    (hv : v ∈ page.verbs) :
    Run.Along H P (verbAvailable g verb page v.root)
      (verbAvailable (g.inBook c) verb' page v.root) := by
  rw [verbAvailable, verbAvailable]
  cases hb : page.block? v.root with
  | none => exact .pure _
  | some b =>
    exact .map _ (along_evalScript hbook hP hverb (hP.guards noun page hpage v hv b hb))

/-- A verb is available in both books or in neither. -/
theorem along_runRoot {page : Page} (hpage : g.story.page? noun = some page) {v : Verb}
    (hv : v ∈ page.verbs) :
    Run.Along H P (runRoot g verb page v.root) (runRoot (g.inBook c) verb' page v.root) := by
  refine .bind (along_verbAvailable hbook hP hverb hpage hv) fun ok => ?_
  split
  · have hblocks := Page.all_below (hP.blocks noun page hpage) v.root
    exact .bind (along_runForest hbook hP hverb hblocks none) fun _ => .pure _
  · exact .pure _

end Expr

/-- A page that is found by its noun is the page of that noun. -/
theorem Story.page?_of_lookup {s : Story} {noun : String} {page : Page}
    (h : s.lookup noun = .ok page) : s.page? noun = some page := by
  rw [lookup] at h
  split at h
  next hpage =>
    cases h
    exact hpage
  next => cases h

/-- Verbs run along, down to the depth that is left. -/
theorem along_runVerb {g : Setting σ} {c : Book τ} (hbook : g.book.Matches H c)
    (hP : g.story.Reports P) (depth : Nat) (noun name : String) :
    Run.Along H P (runVerb g depth noun name) (runVerb (g.inBook c) depth noun name) := by
  have hstory : (g.inBook c).story = g.story := rfl
  induction depth generalizing noun name with
  | zero =>
    rw [runVerb, runVerb, hstory]
    cases hlookup : g.story.lookup noun with
    | error d => exact .bind (.report (hP.lookup noun d hlookup)) fun _ => .pure _
    | ok page =>
      dsimp only
      split
      · exact .bind (.problem (hP.problem noun _ rfl)) fun _ => .pure _
      · exact .bind (.problem (hP.problem noun _ rfl)) fun _ => .pure _
  | succ depth ih =>
    rw [runVerb, runVerb, hstory]
    cases hlookup : g.story.lookup noun with
    | error d => exact .bind (.report (hP.lookup noun d hlookup)) fun _ => .pure _
    | ok page =>
      dsimp only
      split
      · exact .bind (.problem (hP.problem noun _ rfl)) fun _ => .pure _
      next v hfound =>
        exact along_runRoot hbook hP ih (Story.page?_of_lookup hlookup)
          (List.mem_of_find?_eq_some hfound)

end Gamebook
