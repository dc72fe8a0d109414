import Gamebook.Proofs.Page.Scopes
import Gamebook.Proofs.Play.Parallel
import Gamebook.Proofs.Story.Defaults
import Mathlib.Data.List.MinMax

/-!
# Nested calls

A verb may call verbs, itself among them, wherever a script can stand: in its guard, in conditions,
in the arguments of functions and in its body. Blocks, in turn, run their children. Here these two
kinds of calls are made explicit, with a counter of the verbs that are running (`Calls.next`), and a
run may be cut off where calls are nested too deep (`Calls.within`).

Not all calls need be answered that way. Children come after their parents, and a verb is refused if
too many are running. So there is a bound on how deep calls nest, and runs that are allowed that
much are never cut off (`Story.calls_end`). What they do is what runs do anyway; the counter is back
at its value when they end, and never passes the limit.
-/

namespace Gamebook

open Script

variable {σ τ α β : Type}

/-! ### Pages of stories -/

/-- Whether on all pages of a story children come after their parents. -/
def Story.Ordered (s : Story) : Prop :=
  ∀ p ∈ s.pages, p.Ordered

theorem Story.ordered_load (source : String) : (Story.load source).story.Ordered := by
  intro p hp
  obtain ⟨header, text, h, origin, -, rfl⟩ := defines_load source p hp
  exact (Page.formed_ofBody _ origin rfl).ordered

/-- The most blocks that a page of a story has. -/
def Story.blockCount (s : Story) : Nat :=
  (s.pages.map (·.blocks.length)).foldr max 0

theorem Story.length_le_blockCount {s : Story} {p : Page} (hp : p ∈ s.pages) :
    p.blocks.length ≤ s.blockCount :=
  List.le_max_of_le' 0 (List.mem_map_of_mem hp) (Nat.le_refl _)

/-- How deep calls may nest while so many more verbs may be running. Below each verb there are no
more levels of blocks than there are blocks on its page. -/
def Story.nesting (s : Story) (depth : Nat) : Nat :=
  depth * (s.blockCount + 2) + 1

theorem Story.nesting_succ (s : Story) (depth : Nat) :
    s.nesting (depth + 1) = s.nesting depth + s.blockCount + 2 := by
  rw [nesting, nesting, Nat.add_mul]
  omega

theorem Story.nesting_mono (s : Story) {depth depth' : Nat} (h : depth ≤ depth') :
    s.nesting depth ≤ s.nesting depth' :=
  Nat.succ_le_succ (Nat.mul_le_mul_right _ h)

theorem Story.exists_of_nesting_le (s : Story) {depth k : Nat} (h : s.nesting depth ≤ k) :
    ∃ j, k = j + 1 :=
  Nat.exists_eq_add_one.mpr (Nat.lt_of_lt_of_le (Nat.succ_pos _) h)

/-! ### Watched books -/

/-- What is watched of the calls. -/
structure Watch where
  /-- How many verbs are running. -/
  active : Nat := 0
  /-- How many have been running at once. -/
  deepest : Nat := 0
  /-- Whether a call was cut off. -/
  cut : Bool := false
  deriving DecidableEq, Repr

namespace Watch

/-- A verb starts. -/
def enter (w : Watch) : Watch :=
  { w with active := w.active + 1, deepest := max w.deepest (w.active + 1) }

/-- A verb ends. -/
def leave (w : Watch) : Watch :=
  { w with active := w.active - 1 }

/-- Whether so many verbs are running, never more than the limit, and no call was cut off. -/
structure Runs (limit active : Nat) (w : Watch) : Prop where
  active : w.active = active
  deepest : w.deepest ≤ limit
  cut : w.cut = false

theorem Runs.enter {limit active : Nat} {w : Watch} (h : w.Runs limit active)
    (hlimit : active < limit) : w.enter.Runs limit (active + 1) :=
  ⟨congrArg (· + 1) h.active, max_le h.deepest (h.active ▸ hlimit), h.cut⟩

theorem Runs.leave {limit active : Nat} {w : Watch} (h : w.Runs limit (active + 1)) :
    w.leave.Runs limit active :=
  ⟨congrArg (· - 1) h.active, h.deepest, h.cut⟩

end Watch

/-- A book beside which the calls are watched. -/
def Book.watched (b : Book σ) : Book (σ × Watch) where
  play asset x := (b.play asset x.1, x.2)
  stop asset x := (b.stop asset x.1, x.2)
  select options x := ((b.select options x.1).1, (b.select options x.1).2, x.2)
  openMenu name x := (b.openMenu name x.1, x.2)
  closeMenu x := (b.closeMenu x.1, x.2)
  openBook name x := ((b.openBook name x.1).1, (b.openBook name x.1).2, x.2)
  closeBook x := (b.closeBook x.1, x.2)
  quit x := (b.quit x.1, x.2)
  books x := b.books x.1
  inGame x := b.inGame x.1
  sessions x := b.sessions x.1
  save session x := ((b.save session x.1).1, (b.save session x.1).2, x.2)
  load name x := ((b.load name x.1).1, (b.load name x.1).2, x.2)
  dialog message x := ((b.dialog message x.1).1, (b.dialog message x.1).2, x.2)
  input prompt x := ((b.input prompt x.1).1, (b.input prompt x.1).2, x.2)

/-- A book does not notice that the calls beside it are watched. -/
theorem Book.matches_watched (b : Book σ) (Q : Watch → Prop) :
    b.Matches (fun x y => y.1 = x ∧ Q y.2) b.watched where
  play _ | ⟨rfl, hQ⟩ => ⟨rfl, hQ⟩
  stop _ | ⟨rfl, hQ⟩ => ⟨rfl, hQ⟩
  select _ | ⟨rfl, hQ⟩ => ⟨rfl, rfl, hQ⟩
  openMenu _ | ⟨rfl, hQ⟩ => ⟨rfl, hQ⟩
  closeMenu | ⟨rfl, hQ⟩ => ⟨rfl, hQ⟩
  openBook _ | ⟨rfl, hQ⟩ => ⟨rfl, rfl, hQ⟩
  closeBook | ⟨rfl, hQ⟩ => ⟨rfl, hQ⟩
  quit | ⟨rfl, hQ⟩ => ⟨rfl, hQ⟩
  books | ⟨rfl, _⟩ => rfl
  inGame | ⟨rfl, _⟩ => rfl
  sessions | ⟨rfl, _⟩ => rfl
  save _ | ⟨rfl, hQ⟩ => ⟨rfl, rfl, hQ⟩
  load _ | ⟨rfl, hQ⟩ => ⟨rfl, rfl, hQ⟩
  dialog _ | ⟨rfl, hQ⟩ => ⟨rfl, rfl, hQ⟩
  input _ | ⟨rfl, hQ⟩ => ⟨rfl, rfl, hQ⟩

/-- A stage beside whose book nothing is watched. -/
def Stage.unwatched (s : Stage (σ × Watch)) : Stage σ :=
  { s with host := s.host.1 }

/-! ### Calls -/

/-- How calls are answered: those of verbs, and those for the children of blocks. -/
structure Calls (σ : Type) where
  verb (noun name : String) : Run (σ × Watch) Bool
  row (page : Page) (ids : List Nat) : Run (σ × Watch) Nat

/-- Run some blocks of a page, given by their positions, in their order. Calls of verbs and for
children are left to others. -/
def runRow (g : Setting σ) (calls : Calls σ) (page : Page) (branch : Option Bool) :
    List Nat → Run (σ × Watch) Nat
  | [] => return 0
  | id :: rest => match page.block? id with
    | none => runRow g calls page branch rest
    | some b => do
      let body := calls.row page b.children
      let (ran, breaks) ←
        if b.isElse then runElse page.name branch body
        else runBlock (g.inBook g.book.watched) calls.verb page.name b body
      if breaks = 0 then runRow g calls page (branchAfter branch b ran) rest
      else return breaks - 1

/-- Run the verb at a root, if its guard holds. -/
def runRootRow (g : Setting σ) (calls : Calls σ) (page : Page) (root : Nat) :
    Run (σ × Watch) Bool := do
  if ← verbAvailable (g.inBook g.book.watched) calls.verb page root then
    match page.block? root with
    | some b => do
      let _ ← calls.row page b.children
      return true
    | none => return true
  else return false

/-- Count a verb as running until it ends. -/
def Run.counted (m : Run (σ × Watch) α) : Run (σ × Watch) α := do
  Run.tell fun x => (x.1, x.2.enter)
  let a ← m
  Run.tell fun x => (x.1, x.2.leave)
  return a

namespace Calls

/-- All calls are cut off. -/
def none : Calls σ where
  verb _ _ := do
    Run.tell fun x => (x.1, { x.2 with cut := true })
    return false
  row _ _ := do
    Run.tell fun x => (x.1, { x.2 with cut := true })
    return 0

/-- One level of calls. The calls that these make are answered as before. -/
def next (g : Setting σ) (calls : Calls σ) : Calls σ where
  verb noun name := match g.story.lookup noun with
    | .error d => do
      Run.report d
      return false
    | .ok page => match page.findVerb? name with
      | .none => do
        Run.problem noun (.verbNotFound noun name)
        return false
      | some v => do
        if g.maxDepth ≤ (← Run.ask fun x => x.2.active) then
          Run.problem noun (.tooDeep noun name g.maxDepth)
          return false
        else (runRootRow g calls page v.root).counted
  row page ids := runRow g calls page .none ids

/-- Calls that may be nested so deep; deeper ones are cut off. -/
def within (g : Setting σ) : Nat → Calls σ
  | 0 => none
  | k + 1 => (within g k).next g

end Calls

/-! ### Rows of blocks -/

/-- A forest begins with the first of its blocks that is there. -/
theorem Page.forestFrom_cons (p : Page) {parent id : Nat} (h : parent < id) (ids : List Nat) :
    p.forestFrom parent (id :: ids) = match p.block? id with
      | none => p.forestFrom parent ids
      | some b => .node b (p.forestFrom id b.children) (p.forestFrom parent ids) := by
  rw [forestFrom, List.foldr_cons, if_pos h, ← forestFrom]
  split
  next hb => rw [block?, hb]
  next b hb => rw [block?, hb]

/-- Nothing need be known of what a story reports. -/
theorem Story.reports_true (s : Story) : s.Reports fun _ => True :=
  ⟨fun _ _ _ => trivial, fun _ _ _ => trivial, fun _ _ _ _ _ _ _ _ => trivial,
    fun _ _ _ _ _ _ _ _ _ => trivial⟩

section Counted

variable (g : Setting σ)

/-- Two parts of runs that come to the same, one of them in the same book with so many verbs running
beside it. -/
abbrev Counted (active : Nat) (m : Run σ α) (n : Run (σ × Watch) α) : Prop :=
  Run.Along (fun x y => y.1 = x ∧ y.2.Runs g.maxDepth active) (fun _ => True) m n

variable {g} {active : Nat}

/-- Looking at the counter. -/
theorem counted_ask {m : Run σ α} {f : Nat → Run (σ × Watch) α}
    (h : Counted g active m (f active)) :
    Counted g active m (Run.ask (fun x => x.2.active) >>= f) := by
  intro s t hst
  obtain rfl := hst.host.2.active
  exact h s t hst

/-- Refusing a verb. -/
theorem counted_refuse (noun : String) (p : RunProblem) :
    Counted g active (Run.problem noun p >>= fun _ => pure false)
      (Run.problem noun p >>= fun _ => pure false) :=
  .bind (.problem (P := fun _ => True) trivial) fun _ => .pure false

/-- A verb that is counted while it runs comes to the same. -/
theorem counted_counted {m : Run σ α} {n : Run (σ × Watch) α} (hlimit : active < g.maxDepth)
    (h : Counted g (active + 1) m n) : Counted g active m n.counted := by
  intro s t hst
  obtain ⟨hhost, hruns⟩ := hst.host
  obtain ⟨hanswer, hend⟩ := h s { t with host := (t.host.1, t.host.2.enter) }
    { hst with host := ⟨hhost, hruns.enter hlimit⟩ }
  exact ⟨hanswer, { hend with host := ⟨hend.host.1, hend.host.2.leave⟩ }⟩

section Verbs

variable {verb : String → String → Run σ Bool} {verb' : String → String → Run (σ × Watch) Bool}
  (hverb : ∀ noun name, Counted g active (verb noun name) (verb' noun name))

include hverb

theorem counted_evalExpr (noun : String) (e : Expr) :
    Counted g active (evalExpr g verb noun e)
      (evalExpr (g.inBook g.book.watched) verb' noun e) :=
  along_evalExpr (g.book.matches_watched _) g.story.reports_true hverb e

theorem counted_evalScript (noun script : String) :
    Counted g active (evalScript g verb noun script)
      (evalScript (g.inBook g.book.watched) verb' noun script) :=
  along_evalScript (g.book.matches_watched _) g.story.reports_true hverb fun _ _ => trivial

theorem counted_runBlock (noun : String) (b : Block) {body : Run σ Nat}
    {body' : Run (σ × Watch) Nat} (hbody : Counted g active body body') :
    Counted g active (runBlock g verb noun b body)
      (runBlock (g.inBook g.book.watched) verb' noun b body') :=
  along_runBlock (g.book.matches_watched _) g.story.reports_true hverb (fun _ _ _ => trivial) hbody

theorem counted_verbAvailable (page : Page) (root : Nat) :
    Counted g active (verbAvailable g verb page root)
      (verbAvailable (g.inBook g.book.watched) verb' page root) := by
  rw [verbAvailable, verbAvailable]
  cases page.block? root with
  | none => exact .pure _
  | some b => exact .map _ (counted_evalScript hverb page.name b.expression)

end Verbs

variable {verb : String → String → Run σ Bool} {calls : Calls σ} {page : Page}
  (hverb : ∀ noun name, Counted g active (verb noun name) (calls.verb noun name))

include hverb

/-- Blocks in a row come to what they come to in a forest, if the calls that they make do. -/
theorem counted_runRow {parent : Nat}
    (hrow : ∀ id b, parent < id → page.block? id = some b →
      Counted g active (runForest g verb page.name none (page.forestFrom id b.children))
        (calls.row page b.children))
    {ids : List Nat} (hids : ∀ id ∈ ids, parent < id) (branch : Option Bool) :
    Counted g active (runForest g verb page.name branch (page.forestFrom parent ids))
      (runRow g calls page branch ids) := by
  induction ids generalizing branch with
  | nil =>
    rw [Page.forestFrom]
    exact .pure 0
  | cons id rest ih =>
    have hid := hids id List.mem_cons_self
    have hrest := ih fun next hnext => hids next (List.mem_cons_of_mem id hnext)
    rw [Page.forestFrom_cons page hid, runRow]
    cases hb : page.block? id with
    | none => exact hrest branch
    | some b =>
      have hbody := hrow id b hid hb
      have hbehind : ∀ x : Bool × Nat, Counted g active
          (if x.2 = 0 then
            runForest g verb page.name (branchAfter branch b x.1) (page.forestFrom parent rest)
            else pure (x.2 - 1))
          (if x.2 = 0 then runRow g calls page (branchAfter branch b x.1) rest
            else pure (x.2 - 1)) := by
        intro x
        split
        · exact hrest _
        · exact .pure _
      dsimp only
      rw [runForest]
      dsimp only
      split
      · exact .bind (along_runElse g.story.reports_true branch hbody) hbehind
      · exact .bind (counted_runBlock hverb page.name b hbody) hbehind

/-- A verb comes to the same at its root, if the calls that it makes do. -/
theorem counted_runRootRow {root : Nat}
    (hrow : ∀ b, page.block? root = some b →
      Counted g active (runForest g verb page.name none (page.forestFrom root b.children))
        (calls.row page b.children)) :
    Counted g active (runRoot g verb page root) (runRootRow g calls page root) := by
  refine .bind (counted_verbAvailable hverb page root) fun ok => ?_
  split
  · rw [Page.below]
    cases hb : page.block? root with
    | none => exact .pure true
    | some b => exact .bind (hrow b hb) fun _ => .pure true
  · exact .pure false

end Counted

/-! ### Levels -/

section Levels

variable {g : Setting σ} (hordered : g.story.Ordered)

include hordered

/-- Calls for the children of blocks are answered, if those of verbs are and if as many more levels
are allowed as there are blocks behind the parent. -/
theorem counted_row {depth active k : Nat}
    (hverb : ∀ k, g.story.nesting depth ≤ k → ∀ noun name,
      Counted g active (runVerb g depth noun name) ((Calls.within g k).verb noun name))
    {page : Page} (hpage : page ∈ g.story.pages) {parent : Nat} {ids : List Nat}
    (hids : ∀ id ∈ ids, parent < id)
    (hk : g.story.nesting depth + (page.blocks.length - parent) < k) :
    Counted g active (runForest g (runVerb g depth) page.name none (page.forestFrom parent ids))
      ((Calls.within g k).row page ids) := by
  induction k generalizing parent ids with
  | zero => cases hk
  | succ k ih =>
    refine counted_runRow (hverb k (by omega)) (fun id b hid hb => ?_) hids none
    have hlength := (List.getElem?_eq_some_iff.mp hb).1
    exact ih (hordered page hpage id b hb) (by omega)

/-- Calls of verbs are answered, if enough levels are allowed for those verbs that may still run. -/
theorem counted_verb {depth active k : Nat} (hactive : active + depth = g.maxDepth)
    (hk : g.story.nesting depth ≤ k) (noun name : String) :
    Counted g active (runVerb g depth noun name) ((Calls.within g k).verb noun name) := by
  obtain ⟨k, rfl⟩ := g.story.exists_of_nesting_le hk
  induction depth generalizing active k noun name with
  | zero =>
    rw [runVerb, Calls.within, Calls.next]
    dsimp only
    cases hlookup : g.story.lookup noun with
    | error d => exact .bind (.report trivial) fun _ => .pure false
    | ok page =>
      dsimp only
      cases hfound : page.findVerb? name with
      | none => exact counted_refuse noun _
      | some v =>
        refine counted_ask ?_
        rw [if_pos (by omega)]
        exact counted_refuse noun _
  | succ depth ih =>
    rw [runVerb, Calls.within, Calls.next]
    dsimp only
    cases hlookup : g.story.lookup noun with
    | error d => exact .bind (.report trivial) fun _ => .pure false
    | ok page =>
      dsimp only
      cases hfound : page.findVerb? name with
      | none => exact counted_refuse noun _
      | some v =>
        have hpage := List.mem_of_find?_eq_some (Story.page?_of_lookup hlookup)
        have hlength := Story.length_le_blockCount hpage
        have hverb : ∀ k, g.story.nesting depth ≤ k → ∀ noun name,
            Counted g (active + 1) (runVerb g depth noun name)
              ((Calls.within g k).verb noun name) := by
          intro k hk noun name
          obtain ⟨j, rfl⟩ := g.story.exists_of_nesting_le hk
          exact ih (by omega) noun name j hk
        rw [Story.nesting_succ] at hk
        refine counted_ask ?_
        rw [if_neg (by omega)]
        refine counted_counted (by omega) (counted_runRootRow (hverb k (by omega)) fun b hb => ?_)
        exact counted_row hordered hverb hpage (hordered page hpage v.root b hb) (by omega)

end Levels

/-! ### Runs end -/

/-- Whether a part of a run beside which the calls are watched comes to what it comes to anyway. No
call is cut off, no more verbs are running at once than the limit allows, and in the end as many as
before. -/
structure Ends (limit : Nat) (m : Run σ α) (n : Run (σ × Watch) α) (t : Stage (σ × Watch)) :
    Prop where
  answer : (n.run t).1 = (m.run t.unwatched).1
  stage : (n.run t).2.unwatched = (m.run t.unwatched).2
  watch : (n.run t).2.host.2.Runs limit t.host.2.active

theorem Counted.ends {g : Setting σ} {active : Nat} {m : Run σ α} {n : Run (σ × Watch) α}
    (h : Counted g active m n) {t : Stage (σ × Watch)} (ht : t.host.2.Runs g.maxDepth active) :
    Ends g.maxDepth m n t := by
  obtain ⟨hanswer, hend⟩ :=
    h t.unwatched t ⟨rfl, ⟨rfl, ht⟩, rfl, rfl, rfl, fun _ _ => trivial⟩
  refine ⟨hanswer.symm, ?_, ht.active ▸ hend.host.2⟩
  rw [Stage.unwatched, hend.host.1, ← hend.session, ← hend.output, ← hend.diagnostics,
    ← hend.bookmark]

/-- Whatever a loaded story does, and however its verbs call each other, calls nest no deeper than a
bound that the story and the limit give. So it ends to run a verb, to evaluate an expression or a
script, and to run a block, wherever this happens while no more verbs are running than the limit
allows. A verb for which too many are running is refused, which is reported and changes nothing. -/
theorem Story.calls_end (source : String) (book : Book σ) (limit : Nat) {t : Stage (σ × Watch)}
    {active k : Nat} (hwatch : t.host.2.Runs limit active) (hactive : active ≤ limit)
    (hk : (Story.load source).story.nesting (limit + 1) ≤ k) :
    let g : Setting σ := ⟨(Story.load source).story, book, limit⟩
    let verb := runVerb g (limit - active)
    let calls := Calls.within g k
    (∀ noun name, Ends limit (verb noun name) (calls.verb noun name) t) ∧
    (∀ noun e, Ends limit (evalExpr g verb noun e)
      (evalExpr (g.inBook book.watched) calls.verb noun e) t) ∧
    (∀ noun script, Ends limit (evalScript g verb noun script)
      (evalScript (g.inBook book.watched) calls.verb noun script) t) ∧
    (∀ page ∈ g.story.pages, ∀ id b, page.block? id = some b →
      Ends limit (runBlock g verb page.name b (runForest g verb page.name none (page.below id)))
        (runBlock (g.inBook book.watched) calls.verb page.name b (calls.row page b.children)) t) ∧
    (active = limit → ∀ noun name page v, g.story.page? noun = some page →
      page.findVerb? name = some v →
      let refusal := (RunProblem.tooDeep noun name limit).diagnostic noun
      (calls.verb noun name).run t =
        (false, { t with diagnostics := t.diagnostics ++ [refusal] })) := by
  intro g verb calls
  have hordered : g.story.Ordered := Story.ordered_load source
  have hverb : ∀ k, g.story.nesting (limit - active) ≤ k → ∀ noun name,
      Counted g active (verb noun name) ((Calls.within g k).verb noun name) :=
    fun k hk => counted_verb hordered (Nat.add_sub_cancel' hactive) hk
  have hnesting : g.story.nesting (limit - active) + g.story.blockCount + 2 ≤ k := by
    rw [← Story.nesting_succ]
    exact Nat.le_trans (g.story.nesting_mono (by omega)) hk
  have hcalls := hverb k (by omega)
  refine ⟨fun noun name => (hcalls noun name).ends hwatch,
    fun noun e => (counted_evalExpr hcalls noun e).ends hwatch,
    fun noun script => (counted_evalScript hcalls noun script).ends hwatch, ?_, ?_⟩
  · intro page hpage id b hb
    have hlength := Story.length_le_blockCount hpage
    have hrow : Counted g active (runForest g verb page.name none (page.forestFrom id b.children))
        (calls.row page b.children) :=
      counted_row hordered hverb hpage (hordered page hpage id b hb) (by omega)
    rw [Page.below, hb]
    exact (counted_runBlock hcalls page.name b hrow).ends hwatch
  · intro hfull noun name page v hpage hfound
    obtain ⟨k, rfl⟩ := g.story.exists_of_nesting_le hk
    have hlookup : g.story.lookup noun = .ok page := by rw [lookup, hpage]
    have hrefuse : g.maxDepth ≤ t.host.2.active := by rw [hwatch.active, hfull]
    show ((Calls.within g (k + 1)).verb noun name).run t = _
    rw [Calls.within, Calls.next]
    dsimp only
    rw [hlookup]
    dsimp only
    rw [hfound]
    dsimp only
    rw [Run.run_bind]
    show (if g.maxDepth ≤ t.host.2.active then _ else _ : Run (σ × Watch) Bool).run t = _
    rw [if_pos hrefuse]
    rfl

/-- A bell and its echo, each of which asks for the other one. -/
def echoSource : String :=
  "[bell][:ring]?echo:sound\x7b\"Ding.\"!Size(bell:ring)\x7d\x7b\"Dong.\"\x7d" ++
    "[echo]?bell:ring\x7b[:sound]\"Hum.\"\x7d"

/-- The story of the bell. -/
def echoStory : Story where
  pages := [
    { name := "bell"
      source := "[:ring]?echo:sound\x7b\"Ding.\"!Size(bell:ring)\x7d\x7b\"Dong.\"\x7d"
      verbs := [⟨"ring", ["ring"], 0⟩]
      blocks := [⟨.script, "", [1, 4]⟩, ⟨.script, "[?echo:sound]", [2, 3]⟩, .text "Ding.",
        .script "[!Size(bell:ring)]", ⟨.otherwise, "", [5]⟩, .text "Dong."] },
    { name := "echo"
      source := "?bell:ring\x7b[:sound]\"Hum.\"\x7d"
      verbs := [⟨"sound", ["sound"], 0⟩]
      blocks := [⟨.script, "[?bell:ring]", [1]⟩, .text "Hum."] }]
  patterns := .empty

/-- The bell is rung with a limit of three. Two calls are refused, none is cut off, and the counter
is back at zero. With five levels of nesting the run is cut off. -/
theorem Story.calls_end_echo :
    let g : Setting Unit := ⟨echoStory, .silent, 3⟩
    let t : Stage (Unit × Watch) := { session := .fresh, host := ((), {}) }
    let s := (((Calls.within g 33).verb "bell" "ring").run t).2
    (Story.load echoSource).story = echoStory ∧ echoStory.nesting 4 = 33 ∧
    Ends 3 (runVerb g 3 "bell" "ring") ((Calls.within g 33).verb "bell" "ring") t ∧
    s.output = "Dong.Hum.Ding.Dong." ∧ s.host.2 = ⟨0, 3, false⟩ ∧
    s.diagnostics.map (·.message) = ["[echo:sound] nested deeper than 3 calls, not run",
      "[bell:ring] nested deeper than 3 calls, not run"] ∧
    (((Calls.within g 5).verb "bell" "ring").run t).2.host.2.cut = true := by
  intro g t s
  have hload : (Story.load echoSource).story = echoStory := by decide +kernel
  have hnesting : echoStory.nesting 4 = 33 := rfl
  have hk : (Story.load echoSource).story.nesting (3 + 1) ≤ 33 := by rw [hload, hnesting]
  have hwatch : t.host.2.Runs 3 0 := ⟨rfl, by decide, rfl⟩
  obtain ⟨hverb, -⟩ := Story.calls_end echoSource .silent 3 hwatch (by decide) hk
  rw [hload] at hverb
  exact ⟨hload, hnesting, hverb "bell" "ring", by decide +kernel, by decide +kernel,
    by decide +kernel, by decide +kernel⟩

end Gamebook
