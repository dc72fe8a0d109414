import Gamebook.Proofs.Page.Alternatives
import Gamebook.Proofs.Play.Offer
import Gamebook.Proofs.Play.Unwinding

/-!
# One branch of a condition runs

A condition `?lit{ ... }{ ... }{ ... }` is run together with all its other branches: it is
evaluated once, then its own scope runs if it holds, and the first of the other ones if it does not.
No further branch runs (`Page.runs_one_branch`).

That takes a condition with something in its scope. A condition with an empty one is never
evaluated; it is reported to have no body, and then its other branches are reported to have no
condition in front of them, and do not run either (`runs_no_branch_lamp`).
-/

namespace Gamebook

open Script

variable {σ : Type} (g : Setting σ) (verb : String → String → Run σ Bool)

/-- Run what stands below a block, if one is given. -/
def Page.runBelow (p : Page) : Option Nat → Run σ Nat
  | some id => runForest g verb p.name none (p.below id)
  | none => return 0

/-- Leave the scope of a block, or go on with the blocks that are left in it. -/
def Page.leaveOr (p : Page) (parent : Nat) (rest : List Nat) (breaks : Nat) : Run σ Nat :=
  if breaks = 0 then runForest g verb p.name none (p.forestFrom parent rest)
  else return breaks - 1

section Rows

variable {p : Page} (hp : p.Formed) {parent : Nat} {b : Block} (hb : p.block? parent = some b)

include hp hb

/-- What does not begin with another branch runs whatever has run in front of it. -/
theorem runForest_afresh {ids : List Nat} (hids : ids ⊆ b.children)
    (hfirst : ∀ id ∈ ids.head?, ∀ c, p.block? id = some c → c.isElse = false)
    (branch : Option Bool) : runForest g verb p.name branch (p.forestFrom parent ids) =
      runForest g verb p.name none (p.forestFrom parent ids) := by
  cases ids with
  | nil =>
    rw [Page.forestFrom]
    rfl
  | cons id rest =>
    obtain ⟨c, hc, -, hforest⟩ := hp.forestFrom_child hb (hids List.mem_cons_self) rest
    have helse := hfirst id rfl c hc
    simp only [hforest, runForest_node, runChild, branchAfter, helse, Bool.false_eq_true, if_false]

/-- Once a branch has run, other branches are passed over. -/
theorem runForest_taken {others after : List Nat} (hids : others ++ after ⊆ b.children)
    (hothers : ∀ id ∈ others, ∃ c, p.block? id = some c ∧ c.isElse = true) :
    runForest g verb p.name (some true) (p.forestFrom parent (others ++ after)) =
      runForest g verb p.name (some true) (p.forestFrom parent after) := by
  induction others with
  | nil => rfl
  | cons id others ih =>
    obtain ⟨hid, hrest⟩ := List.cons_subset.mp hids
    obtain ⟨c, hc, -, hforest⟩ := hp.forestFrom_child hb hid (others ++ after)
    obtain ⟨c', hc', helse⟩ := hothers id List.mem_cons_self
    cases hc.symm.trans hc'
    rw [List.cons_append, hforest, runForest_node, runChild, if_pos helse,
      ← ih hrest fun next hnext => hothers next (List.mem_cons_of_mem id hnext)]
    simp only [runElse, pure_bind, branchAfter, helse, if_true, Option.map_some, Bool.or_false]

/-- If no branch has run yet, the first one of the others does, if there is one. -/
theorem runForest_untaken {others after : List Nat} (hids : others ++ after ⊆ b.children)
    (hothers : ∀ id ∈ others, ∃ c, p.block? id = some c ∧ c.isElse = true)
    (hafter : ∀ id ∈ after.head?, ∀ c, p.block? id = some c → c.isElse = false) :
    runForest g verb p.name (some false) (p.forestFrom parent (others ++ after)) =
      p.runBelow g verb others.head? >>= p.leaveOr g verb parent after := by
  have hsubset : after ⊆ b.children := fun id hid => hids (List.mem_append_right _ hid)
  cases others with
  | nil =>
    rw [List.nil_append, runForest_afresh g verb hp hb hsubset hafter]
    rfl
  | cons id others =>
    obtain ⟨hid, hrest⟩ := List.cons_subset.mp hids
    obtain ⟨c, hc, -, hforest⟩ := hp.forestFrom_child hb hid (others ++ after)
    obtain ⟨c', hc', helse⟩ := hothers id List.mem_cons_self
    cases hc.symm.trans hc'
    have htaken := runForest_taken g verb hp hb hrest fun next hnext =>
      hothers next (List.mem_cons_of_mem id hnext)
    rw [List.cons_append, hforest, runForest_node, runChild, if_pos helse]
    simp only [runElse, bind_assoc, pure_bind, branchAfter, helse, if_true, Option.map_some,
      Bool.or_true, htaken, runForest_afresh g verb hp hb hsubset hafter (some true)]
    rfl

/-- A condition with something in its scope is run together with its other branches. -/
theorem runForest_branches {id : Nat} {others after : List Nat} {c : Block}
    (hids : id :: others ++ after ⊆ b.children) (hc : p.block? id = some c)
    (hscript : c.kind = .script) (hchildren : c.hasChildren = true)
    (hothers : ∀ id ∈ others, ∃ c, p.block? id = some c ∧ c.isElse = true)
    (hafter : ∀ id ∈ after.head?, ∀ c, p.block? id = some c → c.isElse = false)
    (branch : Option Bool) :
    runForest g verb p.name branch (p.forestFrom parent (id :: others ++ after)) = (do
      let chain ← readScript p.name c.expression
      let v ← evalChain g verb p.name chain
      let n ← p.runBelow g verb (if v.holds then some id else others.head?)
      p.leaveOr g verb parent after n) := by
  obtain ⟨hid, hrest⟩ := List.cons_subset.mp hids
  have hsubset : after ⊆ b.children := fun id hid => hrest (List.mem_append_right _ hid)
  obtain ⟨c', hc', hbracketed, hforest⟩ := hp.forestFrom_child hb hid (others ++ after)
  cases hc.symm.trans hc'
  have helse : c.isElse = false := by
    rw [Block.isElse, hscript]
    rfl
  have hexecuted : c.isExecuted = true := by
    rw [Block.isExecuted, hscript]
    rfl
  have hflag (ran : Bool) : branchAfter branch c ran = some ran := by
    simp only [branchAfter, helse, hexecuted, hchildren, Bool.false_eq_true, if_false,
      Bool.and_self, if_true]
  rw [List.cons_append, hforest, runForest_node, runChild, helse, if_neg Bool.false_ne_true,
    runBlock, hexecuted, hbracketed hscript, hchildren]
  simp only [Bool.not_true, Bool.or_self, Bool.false_eq_true, if_false, if_true, bind_assoc, hflag]
  refine bind_congr fun chain => bind_congr fun v => ?_
  cases v.holds with
  | true =>
    simp only [if_true, bind_assoc, pure_bind]
    rw [runForest_taken g verb hp hb hrest hothers,
      runForest_afresh g verb hp hb hsubset hafter (some true)]
    rfl
  | false =>
    simp only [Bool.false_eq_true, if_false, pure_bind, if_true]
    exact runForest_untaken g verb hp hb hrest hothers hafter

end Rows

/-! ### Pages -/

/-- A condition in a body, `?lit{ ... }`, with any number of other branches, `}{ ... }`, is run with
them in one go, if there is anything in its scope: its script is evaluated once; then its own scope
runs if it holds, and else the first of the other ones, if there is one; and then the blocks behind
all of them, unless the branch that has run asks to leave more scopes. The block of the condition
stands in no other row, so it is not run in any other way. -/
theorem Page.runs_one_branch {name : String} {defaults : Value} {body : String} {origin : Span}
    {parent id : Nat} {expression : String} {others : List Nat}
    (h : Page.Branches { name, defaults } body origin parent id expression others)
    (hbody : ∃ c, (Page.ofBody { name, defaults } body origin).1.block? id = some c ∧
      c.hasChildren = true) :
    let p := (Page.ofBody { name, defaults } body origin).1
    (∀ other x, p.block? other = some x → id ∈ x.children → other = parent) ∧
    ∃ b before after, p.block? parent = some b ∧ b.children = before ++ id :: others ++ after ∧
      ∀ {σ : Type} (g : Setting σ) (verb : String → String → Run σ Bool) (branch : Option Bool),
        runForest g verb p.name branch (p.forestFrom parent (id :: others ++ after)) = (do
          let chain ← readScript p.name expression
          let v ← evalChain g verb p.name chain
          let breaks ← p.runBelow g verb (if v.holds then some id else others.head?)
          p.leaveOr g verb parent after breaks) := by
  intro p
  have hp : p.Formed := formed_ofBody body origin rfl
  obtain ⟨b, before, after, hb, hchildren, ⟨c, hc, hscript, hexpression⟩, hothers, hafter⟩ :=
    branches_ofBody rfl h
  obtain ⟨c', hc', hhas⟩ := hbody
  cases hc.symm.trans hc'
  have hids : id :: others ++ after ⊆ b.children := by
    rw [hchildren, List.append_assoc]
    exact List.subset_append_right _ _
  refine ⟨fun other x hx hid => hp.parent hx hb hid (hids List.mem_cons_self),
    b, before, after, hb, hchildren, fun g verb branch => ?_⟩
  rw [← hexpression]
  exact runForest_branches g verb hp hb hids hc hscript hhas hothers hafter branch

/-! ### A lamp in the dark -/

/-- The lamp before anything is said of it. -/
def lamp : Page :=
  { name := "lamp", defaults := .ofAtom "off" }

/-- What is said of the lamp: a condition with two other branches. -/
def lampBody : String :=
  "[:use]?lamp=on\x7b\"On.\"\x7d\x7b\"Off.\"\x7d\x7b\"No.\"\x7d"

/-- The same with nothing in the scope of the condition, and one other branch. -/
def lampEmptyBody : String :=
  "[:use]?lamp=on\x7b\x7d\x7b\"Off.\"\x7d"

/-- The story of the lamp, in a book that does nothing. -/
def lampSetting (body : String) : Setting Unit :=
  ⟨(Story.load ("[lamp=off]" ++ body)).story, .silent, 64⟩

/-- What some statements lead to is reached. -/
theorem Draft.reached_after {first : Draft} {body : String} (n : Nat) (rest : String)
    (h : (Draft.after n first body.toList).2 = rest.toList) :
    Reached first body.toList (Draft.after n first body.toList).1 rest.toList :=
  h ▸ Reached.start.after n

theorem branches_lamp : lamp.Branches lampBody ⟨0, 10⟩ 0 1 "[?lamp=on]" [3, 5] := by
  have hcondition : lamp.OpensCondition lampBody ⟨0, 10⟩ 0 1 "[?lamp=on]" :=
    ⟨_, _, _, ⟨["use"], 0, []⟩,
      Draft.reached_after 1 "?lamp=on\x7b\"On.\"\x7d\x7b\"Off.\"\x7d\x7b\"No.\"\x7d"
        (by decide +kernel),
      show _ = '\x7b' :: "\"On.\"\x7d\x7b\"Off.\"\x7d\x7b\"No.\"\x7d".toList by decide +kernel,
      by decide +kernel, by decide +kernel, rfl, by decide +kernel, by decide +kernel⟩
  have hfirst : lamp.OpensElse lampBody ⟨0, 10⟩ 0 1 3 :=
    ⟨_, _, ⟨["use"], 0, [⟨1, false⟩]⟩, ⟨1, false⟩, [],
      Draft.reached_after 3 "\x7d\x7b\"Off.\"\x7d\x7b\"No.\"\x7d" (by decide +kernel),
      by decide +kernel, rfl, rfl, rfl, by decide +kernel⟩
  have hsecond : lamp.OpensElse lampBody ⟨0, 10⟩ 0 3 5 :=
    ⟨_, _, ⟨["use"], 0, [⟨3, false⟩]⟩, ⟨3, false⟩, [],
      Draft.reached_after 5 "\x7d\x7b\"No.\"\x7d" (by decide +kernel),
      by decide +kernel, rfl, rfl, rfl, by decide +kernel⟩
  refine ⟨hcondition, .cons_cons hfirst (.cons_cons hsecond (.singleton 5)), ?_⟩
  rintro last ⟨⟩
  exact Page.not_opensElse rfl (b := ⟨.script, "", [1, 3, 5]⟩) (by decide +kernel) rfl

/-- The lamp is off, so of its three branches the second one runs. -/
theorem runs_one_branch_lamp :
    let g := lampSetting lampBody
    let p := (lamp.ofBody lampBody ⟨0, 10⟩).1
    let start : Stage Unit := { session := .fresh, host := () }
    lamp.Branches lampBody ⟨0, 10⟩ 0 1 "[?lamp=on]" [3, 5] ∧
      (∃ c, p.block? 1 = some c ∧ c.hasChildren = true) ∧
      runForest g noVerb p.name none (p.below 0) = (do
        let chain ← readScript p.name "[?lamp=on]"
        let v ← evalChain g noVerb p.name chain
        let breaks ← p.runBelow g noVerb (if v.holds then some 1 else some 3)
        p.leaveOr g noVerb 0 [] breaks) ∧
      ((runForest g noVerb p.name none (p.below 0)).run start).2.output = "Off." := by
  intro g p start
  have hbody : ∃ c, p.block? 1 = some c ∧ c.hasChildren = true :=
    ⟨⟨.script, "[?lamp=on]", [2]⟩, by decide +kernel, rfl⟩
  have hroot : p.block? 0 = some ⟨.script, "", [1, 3, 5]⟩ := by decide +kernel
  obtain ⟨-, b, before, after, hb, hchildren, hrun⟩ := Page.runs_one_branch branches_lamp hbody
  cases hb.symm.trans hroot
  have hends : before = [] ∧ after = [] := by
    have hlength := congrArg List.length hchildren
    simp only [List.length_append, List.length_cons, List.length_nil] at hlength
    exact ⟨List.eq_nil_of_length_eq_zero (by omega), List.eq_nil_of_length_eq_zero (by omega)⟩
  obtain ⟨rfl, rfl⟩ := hends
  refine ⟨branches_lamp, hbody, ?_, by decide +kernel⟩
  have hbelow : p.below 0 = p.forestFrom 0 [1, 3, 5] := by
    rw [Page.below, hroot]
  rw [hbelow]
  exact hrun g noVerb none

/-- With nothing in the scope of the condition no branch runs, although the lamp is off and there is
another branch with a text. -/
theorem runs_no_branch_lamp :
    let g := lampSetting lampEmptyBody
    let p := (lamp.ofBody lampEmptyBody ⟨0, 10⟩).1
    let start : Stage Unit := { session := .fresh, host := () }
    g.story.page? "lamp" = some p ∧
      lamp.Branches lampEmptyBody ⟨0, 10⟩ 0 1 "[?lamp=on]" [2] ∧
      ((evalScript g noVerb "lamp" "[?lamp=on]").run start).1.holds = false ∧
      ((runForest g noVerb p.name none (p.below 2)).run start).2.output = "Off." ∧
      ((runVerb g 1 "lamp" "use").run start).1 = true ∧
      ((runVerb g 1 "lamp" "use").run start).2.output = "" := by
  have hcondition : lamp.OpensCondition lampEmptyBody ⟨0, 10⟩ 0 1 "[?lamp=on]" :=
    ⟨_, _, _, ⟨["use"], 0, []⟩,
      Draft.reached_after 1 "?lamp=on\x7b\x7d\x7b\"Off.\"\x7d" (by decide +kernel),
      show _ = '\x7b' :: "\x7d\x7b\"Off.\"\x7d".toList by decide +kernel,
      by decide +kernel, by decide +kernel, rfl, by decide +kernel, by decide +kernel⟩
  have helse : lamp.OpensElse lampEmptyBody ⟨0, 10⟩ 0 1 2 :=
    ⟨_, _, ⟨["use"], 0, [⟨1, false⟩]⟩, ⟨1, false⟩, [],
      Draft.reached_after 2 "\x7d\x7b\"Off.\"\x7d" (by decide +kernel),
      by decide +kernel, rfl, rfl, rfl, by decide +kernel⟩
  refine ⟨by decide +kernel, ⟨hcondition, .cons_cons helse (.singleton 2), ?_⟩, ?_⟩
  · rintro last ⟨⟩
    exact Page.not_opensElse rfl (b := ⟨.script, "", [1, 2]⟩) (by decide +kernel) rfl
  · decide +kernel

end Gamebook
