import Gamebook.Proofs.Page.Scopes
import Mathlib.Data.List.Chain
import Mathlib.Data.List.Nodup

/-!
# Conditions and their other branches

In a body the other branches of a condition are scopes of their own, `?lit{ ... }{ ... }{ ... }`;
on a page they are blocks behind that of the condition, and nothing but their order tells to which
condition they belong. Here it is shown that the order does tell: where a body ends a scope and
opens one for the other branch, the page has a block for that branch directly behind the block of
the scope in front (`OpensElse.ofBody`), and it has no such block anywhere else
(`opensElse_of_isElse`). So a condition and all its other branches are one row of children
(`Page.branches_ofBody`).
-/

namespace Gamebook

open Script

/-! ### Conditions and other branches in a body -/

/-- Whether a body opens the scope of a condition, `?lit{`, and where the block of the scope goes:
below which block, to which place, and with which script. Directly in front of a declaration a
condition is no part of a verb. -/
def Page.OpensCondition (page : Page) (body : String) (origin : Span) (parent id : Nat)
    (expression : String) : Prop :=
  ∃ d rest behind v, Draft.Reached { page, origin } body.toList d ('?' :: rest) ∧
    rest.drop (Draft.statementLength rest) = '\x7b' :: behind ∧
    d.closeImplied.verb = some v ∧ ¬ (v.inner = [] ∧ Draft.declaresVerb behind = true) ∧
    parent = v.scope ∧ id = d.page.blocks.length ∧ expression = Draft.storedRun rest

/-- Whether a body ends the scope of a block and opens one for the other branch, `}{`, and where the
block of that scope goes. -/
def Page.OpensElse (page : Page) (body : String) (origin : Span) (parent id next : Nat) : Prop :=
  ∃ d rest v s outer, Draft.Reached { page, origin } body.toList d ('\x7d' :: '\x7b' :: rest) ∧
    d.closeImplied.verb = some v ∧ v.inner = s :: outer ∧
    parent = scopeBlock v.root outer ∧ id = s.block ∧ next = d.page.blocks.length

namespace Draft

/-- Where a body opens the scope of a condition, the block of the scope is put. -/
theorem page_step_condition {d : Draft} {rest behind : List Char} {v : OpenVerb}
    (hbehind : rest.drop (statementLength rest) = '\x7b' :: behind)
    (hv : d.closeImplied.verb = some v) (hguard : ¬ (v.inner = [] ∧ declaresVerb behind = true)) :
    (d.step '?' rest).1.page = (d.page.insertChild v.scope (.script (storedRun rest))).1 := by
  have hstep : d.step '?' rest = d.condition ('?' :: rest) := rfl
  have hverb := (verb_closeImplied_validate d ('?' :: rest) (storedRun rest)).trans hv
  have hpage : (d.validate ('?' :: rest) (storedRun rest)).closeImplied.page = d.page := by
    rw [page_closeImplied, (OnlyReports.validate d _ _).page_eq]
  have hopens : (v.inner.isEmpty && declaresVerb behind) = false := by
    rw [Bool.and_eq_false_iff, List.isEmpty_eq_false_iff, ← Bool.not_eq_true]
    exact Classical.not_and_iff_not_or_not.mp hguard
  have hbrace : (('\x7b' :: behind).head? == some '\x7b') = true := rfl
  rw [hstep, condition_eq, hbehind]
  generalize (d.validate ('?' :: rest) (storedRun rest)).closeImplied = e at hverb hpage ⊢
  dsimp only
  rw [hbrace, if_pos rfl, List.drop_succ_cons, List.drop_zero, ask, hverb]
  dsimp only
  rw [hopens, ← hpage]
  rfl

/-- Where a body opens the scope of another branch, a block is put behind that of the scope in
front. -/
theorem page_step_else {d : Draft} {rest : List Char} {v : OpenVerb} {s : Scope}
    {outer : List Scope} (hv : d.closeImplied.verb = some v) (hinner : v.inner = s :: outer) :
    (d.step '\x7d' ('\x7b' :: rest)).1.page =
      (d.page.insertChild (scopeBlock v.root outer) .otherwise).1 := by
  have hstep : d.step '\x7d' ('\x7b' :: rest) = d.closeScope ('\x7d' :: '\x7b' :: rest) := rfl
  obtain ⟨names, root, inner⟩ := v
  subst hinner
  have hpage : (d.closeImplied.leave s).page = d.page := by
    rw [(OnlyReports.leave _ s).page_eq, page_closeImplied]
  have hbrace : ((('\x7d' :: '\x7b' :: rest).drop 1).head? == some '\x7b') = true := rfl
  rw [hstep, closeScope]
  dsimp only
  rw [hv]
  dsimp only
  rw [hbrace, if_pos rfl, ← hpage]
  rfl

/-- Whether each block for another branch stands where the body opens one. -/
def Branched (page : Page) (body : String) (origin : Span) (d : Draft) : Prop :=
  ∀ parent b id next c, d.page.block? parent = some b → [id, next] <:+: b.children →
    d.page.block? next = some c → c.isElse = true → page.OpensElse body origin parent id next

end Draft

/-- Two elements behind each other in a row with one more at the end. -/
theorem pair_infix_concat {α : Type} {a c x : α} {l : List α} :
    [a, c] <:+: l ++ [x] ↔ [a, c] <:+: l ∨ (l.getLast? = some a ∧ c = x) := by
  rw [List.infix_concat_iff, List.suffix_concat_iff, or_comm]
  refine or_congr_right ⟨?_, ?_⟩
  · rintro (h | ⟨front, heq, hfront⟩)
    · cases h
    · obtain ⟨rfl, hx⟩ := List.append_inj' (show [a] ++ [c] = front ++ [x] from heq) rfl
      exact ⟨List.singleton_suffix_iff_getLast?_eq_some.mp hfront, List.singleton_inj.mp hx⟩
  · rintro ⟨hlast, rfl⟩
    exact .inr ⟨[a], rfl, List.singleton_suffix_iff_getLast?_eq_some.mpr hlast⟩

namespace Draft

variable {page : Page} {body : String} {origin : Span}

theorem Branched.of_blocks_eq {d d' : Draft} (h : Branched page body origin d)
    (hblocks : d'.page.blocks = d.page.blocks) : Branched page body origin d' := by
  intro parent b id next c hb hpair hc
  rw [Page.block?, hblocks] at hb hc
  exact h parent b id next c hb hpair hc

/-- A new block, one for another branch only where the body opens one. -/
theorem Branched.insertChild {d d' : Draft} (h : Branched page body origin d)
    (hformed : d.page.Formed) {parent : Nat} {b : Block}
    (hpage : d'.page = (d.page.insertChild parent b).1) (hnew : b.children = [])
    (helse : ∀ x, d.page.block? parent = some x → b.isElse = true → ∀ id ∈ x.children.getLast?,
      page.OpensElse body origin parent id d.page.blocks.length) :
    Branched page body origin d' := by
  intro id x first next y hx hpair hy hyelse
  rw [hpage] at hx hy
  have hlast : (d.page.insertChild parent b).1.block? d.page.blocks.length = some b := by
    rw [Page.block?_insertChild, if_pos rfl]
  rcases Page.insertChild_cases hx with ⟨-, rfl⟩ | ⟨z, hz, -, -, hchildren⟩
  · rw [hnew] at hpair
    cases List.infix_nil.mp hpair
  · -- two children that were there before
    have hold (hpair : [first, next] <:+: z.children) :
        page.OpensElse body origin id first next := by
      have hlt := hformed.lt_length hz (hpair.subset (List.mem_cons_of_mem _ List.mem_cons_self))
      rcases Page.insertChild_cases hy with ⟨hnext, -⟩ | ⟨w, hw, hkind, -⟩
      · omega
      · exact h id z first next w hz hpair hw (by rw [Block.isElse, ← hkind]; exact hyelse)
    rw [hchildren] at hpair
    split at hpair
    next hid =>
      subst hid
      rcases pair_infix_concat.mp hpair with hpair | ⟨hfirst, rfl⟩
      · exact hold hpair
      · cases hlast.symm.trans hy
        exact helse z hz hyelse first hfirst
    next => exact hold hpair

theorem Branched.change {d e d' : Draft} {c : Char} {rest : List Char} {a : Option Above}
    (hshaped : d.Shaped) (hd : Reached { page, origin } body.toList d (c :: rest))
    (hsettles : Settles d e) (h : Branched page body origin e) (hchange : Change d c rest a e d') :
    Branched page body origin d' := by
  have hformed := (hshaped.settle hsettles).formed
  cases hchange with
  | nothing => exact h
  | pend | close => exact h.of_blocks_eq rfl
  | @put c rest e v b scope hv hputs =>
    refine h.insertChild hformed rfl hputs.children_eq_nil fun x hx helse id hid => ?_
    cases hputs with
    | text | instruction | condition => cases helse
    | otherwise s hcloses =>
      -- the scope that ends is that of the last child
      obtain ⟨-, y, hy, hlast⟩ := (hshaped.settle (.closeImplied d)).nested _ hcloses
      rw [page_closeImplied, Page.block?, ← hsettles.blocks] at hy
      cases hy.symm.trans hx
      cases hlast.symm.trans hid
      exact ⟨d, _, _, s, v.inner, hd, hcloses, rfl, rfl, rfl,
        congrArg List.length hsettles.blocks⟩
  | opened =>
    refine h.insertChild hformed (page_opened _ _ _) rfl fun x hx => ?_
    exact absurd (Page.lt_length_of_block? hx) (Nat.lt_irrefl _)

/-- Every draft that reading a body comes to. -/
theorem Reached.branched (hnew : page.blocks = []) {d : Draft} {cs : List Char}
    (h : Reached { page, origin } body.toList d cs) : Branched page body origin d :=
  h.kept (fun _ _ _ _ _ hb => absurd hb (Page.block?_ne_of_nil hnew))
    (fun hd hsettles => hd.of_blocks_eq hsettles.blocks)
    fun hd _ => Branched.change (hd.shaped hnew) hd

end Draft

/-! ### Pages -/

namespace Page

variable {page : Page} (hnew : page.blocks = []) {body : String} {origin : Span}
  {parent id next : Nat}

include hnew

/-- Where a body opens a condition, the page has it. -/
theorem OpensCondition.ofBody {expression : String}
    (h : page.OpensCondition body origin parent id expression) :
    (∃ b, (page.ofBody body origin).1.block? parent = some b ∧ id ∈ b.children) ∧
      ∃ c, (page.ofBody body origin).1.block? id = some c ∧ c.kind = .script ∧
        c.expression = expression := by
  obtain ⟨d, rest, behind, v, hd, hbehind, hv, hguard, rfl, rfl, rfl⟩ := h
  have hextends := extends_ofBody body origin hd.step
  rw [Draft.page_step_condition hbehind hv hguard] at hextends
  have hshaped := (hd.shaped hnew).settle (.closeImplied d)
  have hlt := (hshaped.nested v hv).lt_length hshaped.formed
  rw [Draft.page_closeImplied] at hlt
  obtain ⟨⟨b, hb, hchildren⟩, hchild⟩ :=
    hextends.of_insertChild (List.getElem?_eq_getElem hlt)
  exact ⟨⟨b, hb, hchildren.subset (List.mem_append_right _ (List.mem_singleton_self _))⟩, hchild⟩

/-- Where a body opens another branch, the page has it behind the block in front. -/
theorem OpensElse.ofBody (h : page.OpensElse body origin parent id next) :
    (∃ b, (page.ofBody body origin).1.block? parent = some b ∧ [id, next] <:+: b.children) ∧
      ∃ c, (page.ofBody body origin).1.block? next = some c ∧ c.isElse = true := by
  obtain ⟨d, rest, v, s, outer, hd, hv, hinner, rfl, rfl, rfl⟩ := h
  have hextends := extends_ofBody body origin hd.step
  rw [Draft.page_step_else hv hinner] at hextends
  have hnested := ((hd.shaped hnew).settle (.closeImplied d)).nested v hv
  rw [hinner, Draft.page_closeImplied] at hnested
  obtain ⟨-, x, hx, hlast⟩ := hnested
  obtain ⟨⟨b, hb, hchildren⟩, c, hc, hkind, -⟩ := hextends.of_insertChild hx
  refine ⟨⟨b, hb, ?_⟩, c, hc, by rw [Block.isElse, hkind]; rfl⟩
  exact (pair_infix_concat.mpr (.inr ⟨hlast, rfl⟩)).trans hchildren.isInfix

/-- On the page of a body, only a block that the body opens for another branch is one. -/
theorem opensElse_of_isElse {b c : Block} (hb : (page.ofBody body origin).1.block? parent = some b)
    (hpair : [id, next] <:+: b.children)
    (hc : (page.ofBody body origin).1.block? next = some c) (helse : c.isElse = true) :
    page.OpensElse body origin parent id next := by
  have hstart : Draft.Reached { page, origin } body.toList { page, origin } body.toList := .start
  rw [block?, blocks_ofBody] at hb hc
  exact hstart.run.branched hnew parent b id next c hb hpair hc helse

/-- Behind the last child of a block the body opens no other branch. -/
theorem not_opensElse {b : Block} (hb : (page.ofBody body origin).1.block? parent = some b)
    {last : Nat} (hlast : b.children.getLast? = some last) (next : Nat) :
    ¬ page.OpensElse body origin parent last next := by
  intro hopens
  obtain ⟨⟨b', hb', hpair⟩, -⟩ := hopens.ofBody hnew
  cases hb.symm.trans hb'
  have hnodup : b.children.Nodup := (formed_ofBody body origin hnew).nodup hb
  obtain ⟨front, hchildren⟩ := List.singleton_suffix_iff_getLast?_eq_some.mpr hlast
  rw [← hchildren] at hpair hnodup
  have hnot : last ∉ front := fun hmem =>
    List.disjoint_of_nodup_append hnodup hmem (List.mem_singleton_self last)
  rcases pair_infix_concat.mp hpair with hpair | ⟨hfront, -⟩
  · exact hnot (hpair.subset List.mem_cons_self)
  · exact hnot (List.mem_of_getLast? hfront)

end Page

/-! ### Rows of branches -/

/-- Elements that are pairwise behind each other in a row without repeats are a part of it. -/
theorem exists_append_of_isChain {α : Type} {l : List α} (hnodup : l.Nodup) {x : α} {xs : List α}
    (hx : x ∈ l) (hchain : List.IsChain (fun a c => [a, c] <:+: l) (x :: xs)) :
    ∃ before after, l = before ++ x :: xs ++ after := by
  induction xs generalizing x with
  | nil =>
    obtain ⟨before, after, rfl⟩ := List.append_of_mem hx
    exact ⟨before, after, by rw [List.append_assoc]; rfl⟩
  | cons y ys ih =>
    obtain ⟨⟨front, back, hpair⟩, hchain⟩ := List.isChain_cons_cons.mp hchain
    have hy : y ∈ l := by
      rw [← hpair]
      simp
    obtain ⟨before, after, hl⟩ := ih hy hchain
    -- `y` is at one place only, so `x` stands directly in front of the others
    have hsplit : before ++ y :: (ys ++ after) = (front ++ [x]) ++ y :: back := by
      have hleft : before ++ y :: (ys ++ after) = l := by
        rw [hl, List.append_assoc]
        rfl
      have hright : (front ++ [x]) ++ y :: back = l := by
        rw [← hpair, List.append_assoc, List.append_assoc]
        rfl
      exact hleft.trans hright.symm
    have hnot : y ∉ before ++ (ys ++ after) := by
      rw [hl, List.append_assoc] at hnodup
      exact (List.nodup_cons.mp (List.nodup_middle.mp hnodup)).1
    rw [List.mem_append, not_or] at hnot
    obtain ⟨rfl, -, -⟩ := (List.append_cons_inj_of_notMem hnot.1 hnot.2).mp hsplit
    refine ⟨front, after, ?_⟩
    rw [hl, List.append_assoc front [x]]
    rfl

/-- What is not the first of a chain stands behind something. -/
theorem exists_of_isChain {α : Type} {R : α → α → Prop} {x : α} {xs : List α}
    (h : List.IsChain R (x :: xs)) : ∀ y ∈ xs, ∃ a, R a y := by
  induction xs generalizing x with
  | nil => exact fun y hy => absurd hy List.not_mem_nil
  | cons z zs ih =>
    obtain ⟨hz, hrest⟩ := List.isChain_cons_cons.mp h
    intro y hy
    rcases List.mem_cons.mp hy with rfl | hy
    · exact ⟨x, hz⟩
    · exact ih hrest y hy

namespace Page

/-- Whether a body has a condition with just these other branches behind it. -/
structure Branches (page : Page) (body : String) (origin : Span) (parent id : Nat)
    (expression : String) (others : List Nat) : Prop where
  condition : page.OpensCondition body origin parent id expression
  chain : List.IsChain (page.OpensElse body origin parent) (id :: others)
  no_more : ∀ last ∈ (id :: others).getLast?, ∀ next,
    ¬ page.OpensElse body origin parent last next

/-- A condition and its other branches are a row of children without a gap, and no other branch
stands behind them. -/
theorem branches_ofBody {page : Page} (hnew : page.blocks = []) {body : String} {origin : Span}
    {parent id : Nat} {expression : String} {others : List Nat}
    (h : page.Branches body origin parent id expression others) :
    let p := (page.ofBody body origin).1
    ∃ b before after, p.block? parent = some b ∧ b.children = before ++ id :: others ++ after ∧
      (∃ c, p.block? id = some c ∧ c.kind = .script ∧ c.expression = expression) ∧
      (∀ next ∈ others, ∃ c, p.block? next = some c ∧ c.isElse = true) ∧
      ∀ next ∈ after.head?, ∀ c, p.block? next = some c → c.isElse = false := by
  intro p
  obtain ⟨⟨b, hb, hid⟩, hcondition⟩ := h.condition.ofBody hnew
  have hpair {first next : Nat} (hopens : page.OpensElse body origin parent first next) :
      [first, next] <:+: b.children := by
    obtain ⟨⟨b', hb', hpair⟩, -⟩ := hopens.ofBody hnew
    cases hb.symm.trans hb'
    exact hpair
  have hnodup : b.children.Nodup := (formed_ofBody body origin hnew).nodup hb
  obtain ⟨before, after, hchildren⟩ :=
    exists_append_of_isChain hnodup hid (h.chain.imp fun _ _ => hpair)
  refine ⟨b, before, after, hb, hchildren, hcondition, fun next hnext => ?_,
    fun next hnext c hc => ?_⟩
  · obtain ⟨first, hopens⟩ := exists_of_isChain h.chain next hnext
    exact (hopens.ofBody hnew).2
  · -- another branch would be opened behind the last one
    obtain ⟨last, hlast⟩ : ∃ last, (id :: others).getLast? = some last :=
      ⟨_, List.getLast?_eq_some_getLast (List.cons_ne_nil _ _)⟩
    obtain ⟨front, hfront⟩ := List.singleton_suffix_iff_getLast?_eq_some.mpr hlast
    obtain ⟨back, rfl⟩ := List.head?_eq_some_iff.mp hnext
    have hpair : [last, next] <:+: b.children := by
      refine ⟨before ++ front, back, ?_⟩
      rw [hchildren, ← hfront]
      simp only [List.append_assoc, List.cons_append, List.nil_append]
    rw [← Bool.not_eq_true]
    exact fun helse => h.no_more last hlast next (opensElse_of_isElse hnew hb hpair hc helse)

end Page

end Gamebook
