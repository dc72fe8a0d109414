import Gamebook.Proofs.Page.Scopes
import Gamebook.Proofs.Play.Depth
import Mathlib.Logic.Relation

/-!
# Breaks unwind the scopes that they say

The blocks of a verb are run by recursion, and a break is a number that is handed from scope to
scope. Here the scopes stand open on a stack, innermost first, each with the blocks that are left to
run in it. One move of the machine takes the next block of the innermost scope: it may open a
scope of its own, or be done, or ask for a break; then as many scopes as the break says are thrown
away together with all that is left in them, and the next one goes on where it was.

Running blocks comes to what the machine comes to, with the breaks that are left unwound as scopes
that are thrown away (`reaches_runForest`, `reaches_block`). So a whole verb does what the machine
does until no scope is open (`Page.unwinds_ofBody`).
-/

namespace Gamebook

open Script

variable {σ : Type}

/-! ### One block after the other -/

section Blocks

variable (g : Setting σ) (verb : String → String → Run σ Bool) (noun : String)

/-- Run a block among others; one for another branch runs by what has run in front of it. -/
def runChild (branch : Option Bool) (b : Block) (body : Run σ Nat) : Run σ (Bool × Nat) :=
  if b.isElse then runElse noun branch body else runBlock g verb noun b body

/-- A row of blocks is run by running the first one, and the others unless it asks to leave the
scope. -/
theorem runForest_node (branch : Option Bool) (b : Block) (children rest : Forest) :
    runForest g verb noun branch (.node b children rest) =
      runChild g verb noun branch b (runForest g verb noun none children) >>= fun r =>
        if r.2 = 0 then runForest g verb noun (branchAfter branch b r.1) rest
        else return r.2 - 1 := by
  rw [runForest, runChild]
  split <;> rfl

end Blocks

/-- The forest of some children of a block begins with the first of them. -/
theorem Page.Formed.forestFrom_child {p : Page} (hp : p.Formed) {parent id : Nat} {b : Block}
    (hb : p.block? parent = some b) (hid : id ∈ b.children) (rest : List Nat) :
    ∃ c, p.block? id = some c ∧ (c.kind = .script → c.isBracketed) ∧
      p.forestFrom parent (id :: rest) = .node c (p.below id) (p.forestFrom parent rest) := by
  obtain ⟨c, hc, hbracketed⟩ := hp.child parent b hb id hid
  refine ⟨c, hc, hbracketed, ?_⟩
  rw [Page.forestFrom_cons p (hp.ordered parent b hb id hid), below, hc]

/-! ### The machine -/

/-- An open scope. -/
structure Frame where
  /-- The blocks that are left to run. -/
  rest : List Nat
  /-- Whether a branch of the condition in front of them has run, if they stand behind one. -/
  branch : Option Bool := none
  deriving DecidableEq, Repr

/-- What becomes of a block whose turn it is. -/
inductive Turn where
  /-- Its children run in a scope of their own. -/
  | enter
  /-- It is done, or not run at all. -/
  | pass (branch : Option Bool)
  /-- It is done, and asks to leave some scopes. -/
  | leave (scopes : Nat)
  deriving DecidableEq, Repr

section Machine

variable (g : Setting σ) (verb : String → String → Run σ Bool)

/-- The turn of a block. Nothing is done with its children yet. -/
def takeTurn (noun : String) (branch : Option Bool) (b : Block) : Run σ Turn :=
  match b.kind with
  | .text => do
    Run.print b.expression
    return .pass none
  | .otherwise => match branch with
    | some false => return .enter
    | some true => return .pass (some true)
    | none => do
      Run.problem noun .strayElse
      return .pass none
  | .script => do
    let chain ← readScript noun b.expression
    if b.hasChildren then
      return if (← evalChain g verb noun chain).holds then .enter else .pass (some false)
    else if chain.isCondition then
      Run.problem noun (.emptyCondition b.expression)
      return .pass none
    else return .leave (← evalChain g verb noun chain).breaks

/-- The scopes behind a turn of a block in the innermost one. -/
def Turn.unwind (turn : Turn) (children rest : List Nat) (outer : List Frame) : List Frame :=
  match turn with
  | .enter => ⟨children, none⟩ :: ⟨rest, some true⟩ :: outer
  | .pass branch => ⟨rest, branch⟩ :: outer
  | .leave n => (⟨rest, none⟩ :: outer).drop n

/-- A move of the machine, as long as a scope is open. -/
def Page.move? (p : Page) : List Frame × Stage σ → Option (List Frame × Stage σ)
  | ([], _) => none
  | (⟨[], _⟩ :: outer, s) => some (outer, s)
  | (⟨id :: rest, branch⟩ :: outer, s) => match p.block? id with
    | none => some (⟨rest, branch⟩ :: outer, s)
    | some b =>
      let (turn, t) := (takeTurn g verb p.name branch b).run s
      some (turn.unwind b.children rest outer, t)

/-- Some moves of the machine. -/
def Page.Reaches (p : Page) : List Frame × Stage σ → List Frame × Stage σ → Prop :=
  Relation.ReflTransGen fun c c' => p.move? g verb c = some c'

variable {g verb} {p : Page}

/-- The machine comes to no more than one end. -/
theorem Page.Reaches.unique {c : List Frame × Stage σ} {t t' : Stage σ}
    (h : p.Reaches g verb c ([], t)) (h' : p.Reaches g verb c ([], t')) : t' = t := by
  have hends {t : Stage σ} {c' : List Frame × Stage σ} (h : p.Reaches g verb ([], t) c') :
      c' = ([], t) := by
    rcases h.cases_head with heq | ⟨_, hmove, -⟩
    · exact heq.symm
    · cases hmove
  have hright : Relator.RightUnique fun c c' => p.move? g verb c = some c' :=
    fun _ _ _ hb hc => Option.some.inj (hb.symm.trans hc)
  rcases Relation.ReflTransGen.total_of_right_unique hright h h' with h | h
  · exact congrArg Prod.snd (hends h)
  · exact (congrArg Prod.snd (hends h)).symm

/-! ### Blocks -/

/-- The move for a block that is there. -/
theorem Page.move?_cons {id : Nat} {b : Block} (hb : p.block? id = some b) {rest : List Nat}
    {branch : Option Bool} {outer : List Frame} {s t : Stage σ} {turn : Turn}
    (hturn : (takeTurn g verb p.name branch b).run s = (turn, t)) :
    p.move? g verb (⟨id :: rest, branch⟩ :: outer, s) =
      some (turn.unwind b.children rest outer, t) := by
  rw [move?, hb]
  dsimp only
  rw [hturn]

/-- The turn of a script and the run of its block: a condition that holds has its children run, one
that does not hold or has none is passed over, and an instruction asks for its breaks. -/
theorem takeTurn_script {b : Block} (hscript : b.kind = .script) (hbracketed : b.isBracketed = true)
    (noun : String) (branch : Option Bool) (body : Run σ Nat) (s : Stage σ) :
    (∃ t, b.hasChildren = true ∧ (takeTurn g verb noun branch b).run s = (.enter, t) ∧
      (runBlock g verb noun b body).run s = ((true, (body.run t).1), (body.run t).2)) ∨
    (∃ t ran, (takeTurn g verb noun branch b).run s =
        (.pass (if b.hasChildren then some ran else none), t) ∧
      (runBlock g verb noun b body).run s = ((ran, 0), t)) ∨
    ∃ (t : Stage σ) (v : Verdict), b.hasChildren = false ∧
      (takeTurn g verb noun branch b).run s = (.leave v.breaks, t) ∧
      (runBlock g verb noun b body).run s = ((v.holds, v.breaks), t) := by
  have hexecuted : b.isExecuted = true := by
    rw [Block.isExecuted, hscript]
    rfl
  have hshown : (!b.isExecuted || !b.isBracketed) = false := by
    rw [hexecuted, hbracketed]
    rfl
  obtain ⟨chain, t, hread⟩ : ∃ chain t,
      (readScript noun b.expression : Run σ Chain).run s = (chain, t) := ⟨_, _, rfl⟩
  rw [takeTurn.eq_def, hscript, runBlock, hshown, if_neg Bool.false_ne_true]
  dsimp only
  rw [Run.run_bind, Run.run_bind, hread]
  dsimp only
  cases hchildren : b.hasChildren with
  | true =>
    rw [if_pos rfl, if_pos rfl, Run.run_bind, Run.run_bind]
    obtain ⟨⟨holds, breaks⟩, u, hchain⟩ : ∃ v u,
        (evalChain g verb noun chain).run t = (v, u) := ⟨_, _, rfl⟩
    rw [hchain]
    cases holds with
    | true => exact .inl ⟨u, rfl, rfl, rfl⟩
    | false => exact .inr (.inl ⟨u, false, rfl, rfl⟩)
  | false =>
    rw [if_neg Bool.false_ne_true, if_neg Bool.false_ne_true]
    cases chain.isCondition with
    | true => exact .inr (.inl ⟨_, false, rfl, rfl⟩)
    | false => exact .inr (.inr ⟨_, _, rfl, rfl, rfl⟩)

/-- A block in the innermost scope is run by some moves, if its children are. -/
theorem reaches_block {id : Nat} {b : Block} (hb : p.block? id = some b)
    (hbracketed : b.kind = .script → b.isBracketed) {body : Run σ Nat}
    (hbody : ∀ outer s, p.Reaches g verb (⟨b.children, none⟩ :: outer, s)
      (outer.drop (body.run s).1, (body.run s).2))
    (rest : List Nat) (branch : Option Bool) (outer : List Frame) (s : Stage σ) :
    let r := (runChild g verb p.name branch b body).run s
    p.Reaches g verb (⟨id :: rest, branch⟩ :: outer, s)
      ((⟨rest, branchAfter branch b r.1.1⟩ :: outer).drop r.1.2, r.2) := by
  -- what is done in one move
  have hdone {turn : Turn} {t : Stage σ}
      (hturn : (takeTurn g verb p.name branch b).run s = (turn, t)) :
      p.Reaches g verb (⟨id :: rest, branch⟩ :: outer, s) (turn.unwind b.children rest outer, t) :=
    .single (Page.move?_cons hb hturn)
  -- a scope that is opened is run to its end
  have henter {t : Stage σ}
      (hturn : (takeTurn g verb p.name branch b).run s = (.enter, t)) :
      p.Reaches g verb (⟨id :: rest, branch⟩ :: outer, s)
        ((⟨rest, some true⟩ :: outer).drop (body.run t).1, (body.run t).2) :=
    (hdone hturn).trans (hbody (⟨rest, some true⟩ :: outer) t)
  cases hkind : b.kind with
  | text =>
    rw [takeTurn.eq_def, hkind] at hdone
    simp only [runChild, Block.isElse, Block.isExecuted, branchAfter, runBlock, hkind]
    exact hdone rfl
  | otherwise =>
    rw [takeTurn.eq_def, hkind] at hdone henter
    simp only [runChild, Block.isElse, branchAfter, hkind]
    cases branch with
    | none => exact hdone rfl
    | some ran =>
      cases ran with
      | false => exact henter rfl
      | true => exact hdone rfl
  | script =>
    have hflag (ran : Bool) :
        branchAfter branch b ran = if b.hasChildren then some ran else none := by
      rw [branchAfter, Block.isElse, Block.isExecuted, hkind]
      rfl
    have helse : b.isElse = false := by
      rw [Block.isElse, hkind]
      rfl
    rw [runChild, helse, if_neg Bool.false_ne_true]
    rcases takeTurn_script hkind (hbracketed hkind) p.name branch body s with
      ⟨t, hchildren, hturn, hrun⟩ | ⟨t, ran, hturn, hrun⟩ | ⟨t, v, hchildren, hturn, hrun⟩
    · rw [hrun]
      dsimp only
      rw [hflag, hchildren]
      exact henter hturn
    · rw [hrun]
      dsimp only
      rw [hflag]
      exact hdone hturn
    · rw [hrun]
      dsimp only
      rw [hflag, hchildren]
      exact hdone hturn

/-! ### Rows of blocks -/

/-- Children in the innermost scope are run by some moves; then their scope is left, with as many
others as they ask for. -/
theorem reaches_runForest (hp : p.Formed) {parent : Nat} {b : Block}
    (hb : p.block? parent = some b) {ids : List Nat} (hids : ids ⊆ b.children)
    (branch : Option Bool) (outer : List Frame) (s : Stage σ) :
    let r := (runForest g verb p.name branch (p.forestFrom parent ids)).run s
    p.Reaches g verb (⟨ids, branch⟩ :: outer, s) (outer.drop r.1, r.2) := by
  -- blocks are run by recursion on what comes behind the parent
  induction hn : p.blocks.length - parent using Nat.strongRecOn
    generalizing parent b ids branch outer s with
  | ind n ih =>
    subst hn
    induction ids generalizing branch s with
    | nil =>
      rw [Page.forestFrom]
      exact .single rfl
    | cons id rest ihrest =>
      obtain ⟨hid, hrest⟩ := List.cons_subset.mp hids
      obtain ⟨c, hc, hbracketed, hforest⟩ := hp.forestFrom_child hb hid rest
      have hbehind : parent < id := hp.ordered parent b hb id hid
      have hlt : id < p.blocks.length := Page.lt_length_of_block? hc
      have hbody := ih (p.blocks.length - id) (by omega) hc (List.Subset.refl _) none
      have hblock := reaches_block hc hbracketed (fun outer s => hbody outer s rfl) rest branch
        outer s
      dsimp only
      rw [hforest, runForest_node, Run.run_bind, Page.below, hc]
      generalize (runChild g verb p.name branch c _).run s = r at hblock ⊢
      obtain ⟨⟨ran, breaks⟩, t⟩ := r
      cases breaks with
      | zero => exact Relation.ReflTransGen.trans hblock (ihrest hrest _ t)
      | succ n => exact hblock

/-! ### Verbs -/

/-- A verb whose guard does not hold does nothing more; if it holds, the blocks of the verb are run
by some moves until no scope is open. -/
theorem reaches_runRoot (hp : p.Formed) {root : Nat} {b : Block} (hb : p.block? root = some b)
    (s : Stage σ) :
    let guard := (verbAvailable g verb p root).run s
    let r := (runRoot g verb p root).run s
    r.1 = guard.1 ∧ (guard.1 = false → r.2 = guard.2) ∧
      (guard.1 = true → p.Reaches g verb ([⟨b.children, none⟩], guard.2) ([], r.2)) := by
  have hblocks (t : Stage σ) : p.Reaches g verb ([⟨b.children, none⟩], t)
      ([], ((runForest g verb p.name none (p.forestFrom root b.children)).run t).2) := by
    have hend := @reaches_runForest _ g verb _ hp root b hb _ (List.Subset.refl _) none [] t
    simpa only [List.drop_nil] using hend
  dsimp only
  rw [runRoot, Run.run_bind]
  generalize (verbAvailable g verb p root).run s = guard
  obtain ⟨holds, t⟩ := guard
  cases holds with
  | false => exact ⟨rfl, fun _ => rfl, fun h => absurd h Bool.false_ne_true⟩
  | true =>
    dsimp only
    rw [if_pos rfl, Page.below, hb]
    exact ⟨rfl, fun h => absurd h.symm Bool.false_ne_true, fun _ => hblocks t⟩

end Machine

/-- On the page of a body, running blocks is what the machine does. A row of blocks that is run in
some open scopes ends where the machine leaves the scope of the row, with as many more as there are
breaks left; so does a single block, behind which the scopes that are left over go on where they
were. A verb whose guard holds is run until no scope is open, and the machine comes to no other
end. -/
theorem Page.unwinds_ofBody (g : Setting σ) (verb : String → String → Run σ Bool) (name : String)
    (defaults : Value) (body : String) (origin : Span) :
    let p := (Page.ofBody { name, defaults } body origin).1
    (∀ parent b, p.block? parent = some b → ∀ ids, ids <:+ b.children → ∀ branch outer s,
      let r := (runForest g verb p.name branch (p.forestFrom parent ids)).run s
      p.Reaches g verb (⟨ids, branch⟩ :: outer, s) (outer.drop r.1, r.2)) ∧
    (∀ parent b, p.block? parent = some b → ∀ id rest, id :: rest <:+ b.children →
      ∃ c, p.block? id = some c ∧ ∀ branch outer s,
        let r := (runChild g verb p.name branch c
          (runForest g verb p.name none (p.below id))).run s
        p.Reaches g verb (⟨id :: rest, branch⟩ :: outer, s)
          ((⟨rest, branchAfter branch c r.1.1⟩ :: outer).drop r.1.2, r.2)) ∧
    ∀ root b, p.block? root = some b → ∀ s,
      let guard := (verbAvailable g verb p root).run s
      let r := (runRoot g verb p root).run s
      r.1 = guard.1 ∧ (guard.1 = false → r.2 = guard.2) ∧
        (guard.1 = true → ∀ t,
          p.Reaches g verb ([⟨b.children, none⟩], guard.2) ([], t) ↔ t = r.2) := by
  intro p
  have hp : p.Formed := formed_ofBody body origin rfl
  refine ⟨?_, ?_, ?_⟩
  · intro parent b hb ids hids branch outer s
    exact reaches_runForest hp hb hids.subset branch outer s
  · intro parent b hb id rest hids
    obtain ⟨c, hc, hbracketed⟩ := hp.child parent b hb id (hids.subset List.mem_cons_self)
    refine ⟨c, hc, fun branch outer s => reaches_block hc hbracketed ?_ rest branch outer s⟩
    rw [below, hc]
    exact reaches_runForest hp hc (List.Subset.refl _) none
  · intro root b hb s
    obtain ⟨hholds, hskips, hend⟩ := reaches_runRoot (g := g) hp hb s
    refine ⟨hholds, hskips, fun hguard t => ?_⟩
    constructor
    · exact fun hreaches => (hend hguard).unique hreaches
    · rintro rfl
      exact hend hguard

/-- Three scopes of conditions stand around a break that leaves two of them. -/
example :
    let body := "?\x7b\"a\"?\x7b\"b\"?\x7b\"c\"!<<\"x\"\x7d\"y\"\x7d\"z\"\x7d\"end\""
    let box := (Story.load ("[box][:open]" ++ body)).story
    let start : Stage Unit := { session := .fresh, host := () }
    ((runVerb ⟨box, .silent, 64⟩ 64 "box" "open").run start).2.output = "abczend" := by
  decide +kernel

end Gamebook
