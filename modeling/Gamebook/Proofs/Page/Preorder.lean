import Gamebook.Proofs.Page.Alternatives
import Gamebook.Proofs.Page.Numbering
import Gamebook.Proofs.Page.Scripts

/-!
# Trees of blocks

A page is read into one row of blocks. Here it is shown that whatever a body says, the row is made
of trees, one for each declaration of a verb, and that the blocks are numbered in the order in which
one comes to them from the tops of the trees (`Page.preorder_ofBody`). Each new block goes to the
end of the row, and while a verb is open the scopes at hand are the edge of the last tree, so that
the new block belongs there (`Draft.Planted.change`).

A scope is only ever opened around a condition or another branch of one (`Draft.Change.hasOpen`). So
nothing stands below a text or an instruction, and another branch stands directly behind the
condition it belongs to or behind one more branch of it (`Draft.Housed.change`).
-/

namespace Gamebook

open Script

/-! ### Kinds of blocks -/

namespace Block

/-- Whether the block asks: its script was written behind a question mark. -/
def IsCondition (b : Block) : Prop :=
  b.kind = .script ∧ ['[', '?'] <+: b.expression.toList

/-- Whether the block does something: its script was written behind an exclamation mark. -/
def IsInstruction (b : Block) : Prop :=
  b.kind = .script ∧ ['[', '!'] <+: b.expression.toList

/-- Whether the block is a condition or another branch of one. -/
def IsBranch (b : Block) : Prop :=
  b.IsCondition ∨ b.isElse = true

/-- Whether nothing may stand below the block. -/
def IsLeaf (b : Block) : Prop :=
  b.kind = .text ∨ b.IsInstruction

/-- What was written behind a question mark does not stand behind an exclamation mark. -/
theorem not_asks_and_instructs {cs : List Char} (hasks : ['[', '?'] <+: cs)
    (hinstructs : ['[', '!'] <+: cs) : False := by
  obtain ⟨front, rfl⟩ := hasks
  obtain ⟨behind, heq⟩ := hinstructs
  cases heq

theorem IsBranch.not_isLeaf {b : Block} (h : b.IsBranch) : ¬ b.IsLeaf := by
  rintro (htext | ⟨hscript, hinstructs⟩)
  · rcases h with ⟨hscript, -⟩ | helse
    · rw [htext] at hscript
      cases hscript
    · rw [isElse, htext] at helse
      cases helse
  · rcases h with ⟨-, hasks⟩ | helse
    · exact not_asks_and_instructs hasks hinstructs
    · rw [isElse, hscript] at helse
      cases helse

theorem isCondition_script (run : List Char) :
    (script (String.ofList (chainText '?' run))).IsCondition := by
  refine ⟨rfl, ?_⟩
  rw [script, String.toList_ofList]
  exact ⟨_, rfl⟩

end Block

/-- Whether a condition or another branch of one stands at a place of a page. -/
def Page.HasBranch (p : Page) (id : Nat) : Prop :=
  ∃ b, p.block? id = some b ∧ b.IsBranch

theorem Page.HasBranch.extend {p q : Page} {id : Nat} (h : p.HasBranch id)
    (hextends : p.Extends q) : q.HasBranch id := by
  obtain ⟨b, hb, hbranch⟩ := h
  obtain ⟨b', hb', hkind, hexpression, -⟩ := hextends id b hb
  refine ⟨b', hb', ?_⟩
  rw [Block.IsBranch, Block.IsCondition, Block.isElse, hkind, hexpression]
  exact hbranch

namespace Draft

/-! ### Roots and scopes that come and go -/

/-- Whether a scope is open. -/
def HasOpen (d : Draft) (s : Scope) : Prop :=
  ∃ v, d.verb = some v ∧ s ∈ v.inner

section Steps

variable {d e d' : Draft} {c : Char} {rest : List Char} {a : Option Above} {s : Scope}

theorem HasOpen.of_settles (hs : e.HasOpen s) (h : Settles d e) : d.HasOpen s := by
  obtain ⟨v', hv', hmem⟩ := hs
  obtain ⟨v, hv, -, -, hinner⟩ := h.verb v' hv'
  exact ⟨v, hv, hinner.subset hmem⟩

/-- A scope is only opened around a condition or another branch. -/
theorem Puts.isBranch {v : OpenVerb} {b : Block} {implied : Bool}
    (h : Puts d c rest e v b (some implied)) : b.IsBranch := by
  cases h with
  | condition => exact .inl (Block.isCondition_script _)
  | otherwise => exact .inr rfl

theorem Change.hasOpen (h : Change d c rest a e d') (hs : d'.HasOpen s) :
    e.HasOpen s ∨ d'.page.HasBranch s.block := by
  obtain ⟨v', hv', hmem⟩ := hs
  cases h with
  | nothing | pend | close => exact .inl ⟨v', hv', hmem⟩
  | @put c rest e v b scope hv hputs =>
    cases hv'
    cases scope with
    | none => exact .inl ⟨v, hv, hmem⟩
    | some implied =>
      rcases List.mem_cons.mp hmem with rfl | hmem
      · exact .inr ⟨b, by rw [Draft.put, Page.block?_insertChild, if_pos rfl], hputs.isBranch⟩
      · exact .inl ⟨v, hv, hmem⟩
  | opened =>
    cases hv'
    cases hmem

theorem Settles.nodup_roots (h : Settles d e) (hd : d.roots.Nodup) : e.roots.Nodup := by
  obtain ⟨part, hperm, hsublist⟩ := h.roots
  exact hperm.nodup_iff.mp (hd.sublist hsublist)

/-! ### The roots of verbs -/

/-- Whether the blocks of a draft are trees in a row, and the verb at hand stands at the root of the
last one. -/
structure Planted (d : Draft) (roots : List Nat) : Prop where
  numbered : d.page.Numbered 0 roots d.page.blocks.length
  last : ∀ v, d.verb = some v → roots.getLast? = some v.root

variable {roots : List Nat}

theorem Planted.settle (h : d.Planted roots) (hd : Settles d e) : e.Planted roots := by
  refine ⟨?_, fun v' hv' => ?_⟩
  · rw [hd.blocks]
    exact h.numbered.congr fun id _ _ => by rw [Page.block?, Page.block?, hd.blocks]
  · obtain ⟨v, hv, -, hroot, -⟩ := hd.verb v' hv'
    rw [hroot]
    exact h.last v hv

/-- A statement plants at most one more tree, that of the verb which it opens. -/
theorem Planted.change (h : e.Planted roots) (hshaped : e.Shaped) (hd : Change d c rest a e d') :
    d'.Planted roots ∨ (d'.Planted (roots ++ [e.page.blocks.length]) ∧
      ∃ v, d'.verb = some v ∧ v.root = e.page.blocks.length) := by
  cases hd with
  | nothing => exact .inl h
  | pend | close => exact .inl ⟨h.numbered, h.last⟩
  | @put c rest e v b scope hv hputs =>
    have hlast := h.last v hv
    refine .inl ⟨?_, ?_⟩
    · rw [put, Page.length_insertChild]
      exact h.numbered.insertChild hputs.children_eq_nil ((hshaped.nested v hv).onEdge hlast)
    · rintro v' ⟨⟩
      exact hlast
  | opened =>
    refine .inr ⟨⟨?_, ?_⟩, _, rfl, rfl⟩
    · rw [opened, Page.addBlock, List.length_append]
      exact h.numbered.addBlock rfl
    · rintro v' ⟨⟩
      exact List.getLast?_concat

/-- A block that was there before gets no parent. -/
theorem Change.isChild (h : Change d c rest a e d') {parent child : Nat}
    (hchild : d'.page.IsChild parent child) (hold : child < e.page.blocks.length) :
    e.page.IsChild parent child := by
  have hinsert {p : Nat} {b : Block} (hnew : b.children = [])
      (hchild : (e.page.insertChild p b).1.IsChild parent child) : e.page.IsChild parent child := by
    obtain ⟨x, hx, hmem⟩ := hchild
    refine (Page.mem_children_insertChild hnew hx hmem).resolve_right ?_
    rintro ⟨-, -, rfl⟩
    exact Nat.lt_irrefl _ hold
  cases h with
  | nothing | pend | close => exact hchild
  | put _ hputs => exact hinsert hputs.children_eq_nil hchild
  | opened =>
    rw [page_opened] at hchild
    exact hinsert rfl hchild

end Steps

variable {page : Page} {body : String} {origin : Span} {d : Draft} {cs : List Char}

/-- Every draft that reading a body comes to is a row of trees, one for each declaration that was
read. -/
theorem Reached.planted (hnew : page.blocks = [])
    (h : Reached { page, origin } body.toList d cs) :
    ∃ roots, d.Planted roots ∧
      ∀ root ∈ roots, ∃ names conditions, page.Declares body origin names root conditions := by
  induction h with
  | start =>
    refine ⟨[], ⟨?_, fun v hv => ?_⟩, fun root hroot => ?_⟩
    · rw [hnew]
      exact .nil 0
    · cases hv
    · cases hroot
  | @step d c rest hd ih =>
    obtain ⟨roots, hplanted, hdeclared⟩ := ih
    obtain ⟨e, hsettles, hchange⟩ := stepped_step d c rest
    have hshaped := (hd.shaped hnew).settle hsettles
    rcases (hplanted.settle hsettles).change hshaped hchange with hnext | ⟨hnext, v, hv, hroot⟩
    · exact ⟨roots, hnext, hdeclared⟩
    · refine ⟨_, hnext, fun root hmem => ?_⟩
      rcases List.mem_append.mp hmem with hmem | hmem
      · exact hdeclared root hmem
      · obtain ⟨conditions, hdeclares, -⟩ := hd.step.guarded.verb v hv
        rw [hroot, ← List.mem_singleton.mp hmem] at hdeclares
        exact ⟨v.names, conditions, hdeclares⟩

/-- A block that was there before gets no parent. -/
theorem Reached.isChild {first : Draft} {text : List Char} (h : Reached first text d cs)
    {parent child : Nat} (hchild : d.page.IsChild parent child)
    (hold : child < first.page.blocks.length) : first.page.IsChild parent child := by
  refine h.kept (P := fun d => d.page.IsChild parent child → first.page.IsChild parent child)
    id (fun hd hsettles hchild => hd ?_) (fun hd _ hsettles he hchange hchild => he ?_) hchild
  · rwa [Page.IsChild, Page.block?, hsettles.blocks] at hchild
  · exact hchange.isChild hchild (hsettles.blocks ▸ Nat.lt_of_lt_of_le hold hd.extends.length_le)

/-- Each declaration stands at a root of the row that reading ends with. -/
theorem mem_roots_of_declares (hnew : page.blocks = []) {roots : List Nat}
    (hrow : (Draft.run { page, origin } body.toList).Planted roots) {names : List String}
    {root : Nat} {conditions : List String}
    (hdeclares : page.Declares body origin names root conditions) :
    root ∈ roots := by
  obtain ⟨d, cs, behind, hd, hread, hne, rfl, -⟩ := hdeclares
  obtain ⟨rest, rfl⟩ := eq_of_declarations hread hne
  obtain ⟨e, hsettles, -, hopened⟩ := verbDeclaration_opens hread hne
  have hstep : (d.step '[' (':' :: rest)).1 = e.opened names (foldChains d.conditions) := hopened
  -- behind the declaration the block is a root, so it is no child
  obtain ⟨before, hplanted, -⟩ := hd.step.planted hnew
  have hlast : before.getLast? = some d.page.blocks.length := by
    rw [← hsettles.blocks]
    refine hplanted.last ⟨names, e.page.blocks.length, []⟩ ?_
    rw [hstep]
    rfl
  have hmem := List.mem_of_getLast? hlast
  have hbounds := hplanted.numbered.bounds hmem
  have hrun := hd.step.toEnd
  have hle := hrun.extends.length_le
  refine (hrow.numbered.root_or_child (Nat.zero_le _) (by omega)).resolve_right ?_
  rintro ⟨parent, hchild⟩
  have hbefore := hrun.isChild hchild hbounds.2
  obtain ⟨b, hb, -⟩ := id hbefore
  exact hplanted.numbered.not_isChild hmem (Nat.zero_le _) (Page.lt_length_of_block? hb) hbefore

/-- No two verbs that reading comes to have the same root. -/
theorem Reached.nodup_roots (hverbs : page.verbs = [])
    (h : Reached { page, origin } body.toList d cs) : d.roots.Nodup := by
  refine h.kept (P := fun d => d.roots.Nodup) ?_ (fun hd hsettles => hsettles.nodup_roots hd) ?_
  · rw [Draft.roots, hverbs]
    exact .nil
  intro d c rest a e d' hd _ hsettles he hchange
  cases hchange with
  | nothing | pend | close => exact he
  | put hv =>
    rw [roots_put hv]
    exact he
  | @opened rest behind names e _ _ hnone =>
    have hroots : (e.opened names (foldChains d.conditions)).roots =
        e.page.blocks.length :: e.roots := by
      rw [Draft.roots, Draft.roots, hnone]
      rfl
    rw [hroots]
    refine List.nodup_cons.mpr ⟨fun hmem => ?_, he⟩
    obtain ⟨b, hb, -⟩ := ((hd.rooted hverbs).settle hsettles) _ hmem
    exact absurd (Page.lt_length_of_block? hb) (Nat.lt_irrefl _)

/-! ### Roots of verbs are no leaves -/

/-- Every condition in scope was written behind a question mark. -/
theorem Reached.asks (h : Reached { page, origin } body.toList d cs) :
    ∀ p ∈ d.pending, ['[', '?'] <+: p.expression.toList := by
  refine h.kept (P := fun d => ∀ p ∈ d.pending, ['[', '?'] <+: p.expression.toList)
    (fun p hp => absurd hp List.not_mem_nil)
    (fun hd hsettles => by rw [hsettles.pending]; exact hd) ?_
  intro d c rest a e d' _ _ _ he hchange p hp
  rcases hchange.mem_pending hp with hp | ⟨-, heq, -⟩
  · exact he p hp
  · rw [heq]
    exact (Block.isCondition_script _).2

/-- Some stored conditions in one script do nothing. -/
theorem not_instructs_foldChains {scripts : List String}
    (hstored : ∀ t ∈ scripts, StoredCondition t.toList)
    (hasks : ∀ t ∈ scripts, ['[', '?'] <+: t.toList) :
    ¬ ['[', '!'] <+: (foldChains scripts).toList := by
  rcases scripts with _ | ⟨script, _ | ⟨next, rest⟩⟩
  · rintro ⟨behind, heq⟩
    cases heq
  · rw [foldChains_eq hstored, String.intercalate_singleton]
    exact Block.not_asks_and_instructs (hasks script List.mem_cons_self)
  · rw [toList_foldChains hstored]
    exact Block.not_asks_and_instructs
      ((hasks script List.mem_cons_self).trans (List.prefix_append _ _))

/-- The root of a verb may have children. -/
theorem Reached.not_isLeaf_root (hverbs : page.verbs = [])
    (h : Reached { page, origin } body.toList d cs) {v : OpenVerb} (hv : d.verb = some v)
    {b : Block} (hb : d.page.block? v.root = some b) : ¬ b.IsLeaf := by
  have hmem : v.root ∈ d.roots := by
    rw [roots, hv]
    exact List.mem_cons_self
  obtain ⟨b', hb', hexecuted⟩ := h.rooted hverbs v.root hmem
  obtain ⟨conditions, ⟨before, _, _, hbefore, -, -, -, rfl⟩, ⟨b'', hb'', hguard⟩, hstored⟩ :=
    h.guarded.verb v hv
  cases hb.symm.trans hb'
  cases hb.symm.trans hb''
  rintro (htext | ⟨-, hinstructs⟩)
  · rw [Block.isExecuted, htext] at hexecuted
    cases hexecuted
  · rw [hguard] at hinstructs
    refine not_instructs_foldChains hstored (fun t ht => ?_) hinstructs
    obtain ⟨p, hp, rfl⟩ := List.mem_map.mp ht
    exact hbefore.asks p (List.mem_reverse.mp hp)

end Draft

/-! ### Blocks in their places -/

/-- Whether a block stands directly behind a condition, or behind another branch of one. -/
def Page.FollowsBranch (p : Page) (id : Nat) : Prop :=
  ∃ parent b front, p.block? parent = some b ∧ [front, id] <:+: b.children ∧ p.HasBranch front

/-- Whether nothing stands below texts and instructions, and other branches only behind a condition
or behind another one. -/
structure Page.WellPlaced (p : Page) : Prop where
  leaves : ∀ id b, p.block? id = some b → b.IsLeaf → b.children = []
  others : ∀ id b, p.block? id = some b → b.isElse = true → p.FollowsBranch id

namespace Page

variable {p q : Page}

theorem FollowsBranch.extend {id : Nat} (h : p.FollowsBranch id) (hextends : p.Extends q) :
    q.FollowsBranch id := by
  obtain ⟨parent, b, front, hb, hpair, hbranch⟩ := h
  obtain ⟨b', hb', -, -, hchildren⟩ := hextends parent b hb
  exact ⟨parent, b', front, hb', hpair.trans hchildren.isInfix, hbranch.extend hextends⟩

namespace WellPlaced

theorem of_blocks_eq (hp : p.WellPlaced) (h : q.blocks = p.blocks) : q.WellPlaced := by
  refine ⟨fun id b hb => ?_, fun id b hb helse => ?_⟩
  · rw [block?, h] at hb
    exact hp.leaves id b hb
  · rw [block?, h] at hb
    exact (hp.others id b hb helse).extend (.of_blocks_eq h)

theorem insertChild (hp : p.WellPlaced) {parent : Nat} {b : Block} (hnew : b.children = [])
    (hparent : ∀ x, p.block? parent = some x → ¬ x.IsLeaf)
    (helse : b.isElse = true → ∃ x front, p.block? parent = some x ∧
      x.children.getLast? = some front ∧ p.HasBranch front) :
    (p.insertChild parent b).1.WellPlaced := by
  have hextends := Extends.insertChild p parent b
  refine ⟨fun id x hx hleaf => ?_, fun id x hx hother => ?_⟩
  · rcases insertChild_cases hx with ⟨-, rfl⟩ | ⟨y, hy, hkind, hexpression, hchildren⟩
    · exact hnew
    · rw [Block.IsLeaf, Block.IsInstruction, hkind, hexpression] at hleaf
      have hne : parent ≠ id := fun hid => hparent y (hid ▸ hy) hleaf
      rw [hchildren, if_neg hne]
      exact hp.leaves id y hy hleaf
  · rcases insertChild_cases hx with ⟨rfl, rfl⟩ | ⟨y, hy, hkind, -, -⟩
    · obtain ⟨x, front, hx, hlast, hbranch⟩ := helse hother
      obtain ⟨⟨y, hy, hchildren⟩, -⟩ := Extends.of_insertChild (.of_blocks_eq rfl) hx
      exact ⟨parent, y, front, hy,
        (pair_infix_concat.mpr (.inr ⟨hlast, rfl⟩)).trans hchildren.isInfix,
        hbranch.extend hextends⟩
    · rw [Block.isElse, hkind] at hother
      exact (hp.others id y hy hother).extend hextends

end WellPlaced

end Page

namespace Draft

/-- Whether the blocks of a draft stand where they belong, and each scope that is open around a
branch. -/
structure Housed (d : Draft) : Prop where
  blocks : d.page.WellPlaced
  scopes : ∀ s, d.HasOpen s → d.page.HasBranch s.block

variable {page : Page} {body : String} {origin : Span} {d : Draft} {cs : List Char}

theorem Housed.settle {e : Draft} (h : d.Housed) (hd : Settles d e) : e.Housed where
  blocks := h.blocks.of_blocks_eq hd.blocks
  scopes s hs := (h.scopes s (hs.of_settles hd)).extend (.of_blocks_eq hd.blocks)

/-- What the children of a verb are put into is no leaf, unless the root is one. -/
theorem Housed.not_isLeaf_scope (h : d.Housed) {v : OpenVerb} (hv : d.verb = some v)
    (hroot : ∀ b, d.page.block? v.root = some b → ¬ b.IsLeaf) {b : Block}
    (hb : d.page.block? v.scope = some b) : ¬ b.IsLeaf := by
  rcases hscopes : v.inner with _ | ⟨s, outer⟩
  · rw [OpenVerb.scope, hscopes] at hb
    exact hroot b hb
  · rw [OpenVerb.scope, hscopes] at hb
    obtain ⟨b', hb', hbranch⟩ := h.scopes s ⟨v, hv, hscopes ▸ List.mem_cons_self⟩
    cases hb'.symm.trans hb
    exact hbranch.not_isLeaf

theorem Housed.change {e d' : Draft} {c : Char} {rest : List Char} {a : Option Above}
    (hshaped : d.Shaped) (hleaf : ∀ v, d.verb = some v → ∀ b, d.page.block? v.root = some b →
      ¬ b.IsLeaf) (h : d.Housed) (hsettles : Settles d e) (hchange : Change d c rest a e d') :
    d'.Housed := by
  have he := h.settle hsettles
  refine ⟨?_, fun s hs => ?_⟩
  · cases hchange with
    | nothing => exact he.blocks
    | pend | close => exact he.blocks.of_blocks_eq rfl
    | @put c rest e v b scope hv hputs =>
      refine he.blocks.insertChild hputs.children_eq_nil (fun x hx => ?_) fun helse => ?_
      · obtain ⟨w, hw, -, hroot, -⟩ := hsettles.verb v hv
        refine he.not_isLeaf_scope hv (fun b hb => hleaf w hw b ?_) hx
        rwa [hroot, Page.block?, hsettles.blocks] at hb
      · cases hputs with
        | text | instruction | condition => cases helse
        | otherwise s hcloses =>
          -- the scope that ends is that of the last child, and stands around a branch
          have hopen : d.closeImplied.HasOpen s := ⟨_, hcloses, List.mem_cons_self⟩
          obtain ⟨-, x, hx, hlast⟩ := (hshaped.settle (.closeImplied d)).nested _ hcloses
          rw [page_closeImplied, Page.block?, ← hsettles.blocks] at hx
          exact ⟨x, s.block, hx, hlast, (h.scopes s (hopen.of_settles (.closeImplied d))).extend
            (.of_blocks_eq hsettles.blocks)⟩
    | opened =>
      rw [page_opened]
      refine he.blocks.insertChild rfl (fun x hx => ?_) (fun helse => by cases helse)
      exact absurd (Page.lt_length_of_block? hx) (Nat.lt_irrefl _)
  · rcases hchange.hasOpen hs with hopen | hbranch
    · exact (he.scopes s hopen).extend hchange.extends
    · exact hbranch

/-- Every draft that reading a body comes to. -/
theorem Reached.housed (hnew : page.blocks = []) (hverbs : page.verbs = [])
    (h : Reached { page, origin } body.toList d cs) : d.Housed := by
  refine h.kept ⟨⟨fun id b hb => ?_, fun id b hb => ?_⟩, ?_⟩ (·.settle) fun hd h hsettles _ =>
    h.change (hd.shaped hnew) (fun v hv b hb => hd.not_isLeaf_root hverbs hv hb) hsettles
  · exact absurd hb (Page.block?_ne_of_nil hnew)
  · exact absurd hb (Page.block?_ne_of_nil hnew)
  · rintro s ⟨v, hv, -⟩
    cases hv

end Draft

/-! ### Pages -/

/-- Whether the blocks of a page are trees with some roots, numbered as one comes to them from the
top. -/
structure Page.InPreorder (p : Page) (roots : List Nat) : Prop where
  numbered : p.Numbered 0 roots p.blocks.length
  /-- A child comes after its parent. -/
  ahead : ∀ parent child, p.IsChild parent child → parent < child
  /-- Children are listed in the order of their places. -/
  sorted : ∀ id b, p.block? id = some b → b.children.Pairwise (· < ·)
  /-- A tree is a part of the row without a gap. -/
  contiguous : ∀ id < p.blocks.length, ∃ stop, ∀ id', p.Within id id' ↔ id ≤ id' ∧ id' < stop
  /-- A root is there, and it is nobody's child. -/
  root : ∀ root ∈ roots, root < p.blocks.length ∧ ∀ parent, ¬ p.IsChild parent root
  /-- Every other block is the child of just one. -/
  child : ∀ id < p.blocks.length, id ∉ roots → ∃! parent, p.IsChild parent id

/-- Trees in a row are all there is to a page that is well formed. -/
theorem Page.Formed.inPreorder {p : Page} (hp : p.Formed) {roots : List Nat}
    (h : p.Numbered 0 roots p.blocks.length) : p.InPreorder roots := by
  refine ⟨h, fun parent child ⟨b, hb, hmem⟩ => hp.ordered parent b hb child hmem, hp.sorted,
    fun id hid => ?_, fun root hroot => ⟨(h.bounds hroot).2, fun parent hchild => ?_⟩,
    fun id hid hnot => ?_⟩
  · obtain ⟨b, next, hb, hbelow, -⟩ := h.tree (Nat.zero_le id) hid
    exact ⟨next, hbelow.within_iff hb⟩
  · obtain ⟨b, hb, -⟩ := id hchild
    exact h.not_isChild hroot (Nat.zero_le parent) (lt_length_of_block? hb) hchild
  · obtain ⟨parent, b, hb, hmem⟩ := (h.root_or_child (Nat.zero_le id) hid).resolve_left hnot
    refine ⟨parent, ⟨b, hb, hmem⟩, fun parent' ⟨b', hb', hmem'⟩ => ?_⟩
    exact hp.parent hb' hb hmem' hmem

/-- **The blocks of a page are numbered in the order of the body.** Whatever a body says, it makes a
row of trees, one for each declaration in it: children come behind their parents and in their order,
each tree is a part of the row without a gap, and each block but the roots has just one parent.
Every verb has a root of its own. Nothing stands below a text or an instruction, and another branch
stands directly behind a condition or behind one more branch of it. -/
theorem Page.preorder_ofBody {page : Page} (hnew : page.blocks = []) (hverbs : page.verbs = [])
    (body : String) (origin : Span) :
    let p := (page.ofBody body origin).1
    ∃ roots, p.InPreorder roots ∧
      (∀ root, root ∈ roots ↔
        ∃ names conditions, page.Declares body origin names root conditions) ∧
      (∀ v ∈ p.verbs, v.root ∈ roots) ∧ (p.verbs.map (·.root)).Nodup ∧ p.WellPlaced := by
  intro p
  have hend : Draft.Reached { page, origin } body.toList
      (Draft.run { page, origin } body.toList) [] := Draft.Reached.start.run
  have hblocks : p.blocks = (Draft.run { page, origin } body.toList).page.blocks :=
    blocks_ofBody body origin
  obtain ⟨roots, hplanted, hdeclared⟩ := hend.planted hnew
  have hnumbered : p.Numbered 0 roots p.blocks.length := by
    rw [hblocks]
    exact hplanted.numbered.congr fun id _ _ => by rw [block?, block?, hblocks]
  refine ⟨roots, (formed_ofBody body origin hnew).inPreorder hnumbered,
    fun root => ⟨hdeclared root, ?_⟩, fun v hv => ?_, ?_,
    (hend.housed hnew hverbs).blocks.of_blocks_eq hblocks⟩
  · rintro ⟨names, conditions, h⟩
    exact Draft.mem_roots_of_declares hnew hplanted h
  · obtain ⟨conditions, hdeclares, -⟩ := guards_ofBody hv (hverbs ▸ List.not_mem_nil)
    exact Draft.mem_roots_of_declares hnew hplanted hdeclares
  · -- the end of the body may declare the last verb
    have hfinish := (Draft.Settles.finish _).nodup_roots (hend.nodup_roots hverbs)
    exact hfinish.sublist (List.sublist_append_right _ _)

/-! ### A barn -/

/-- The barn before anything is said of it. -/
def barn : Page :=
  { name := "barn" }

/-- What is said of the barn. The condition about the key has another branch, the one about the
lamp has no braces and ends with the verb, and the brace at the end closes nothing. -/
def barnBody : String :=
  "[:open]?key\x7b!barn=open\"It opens.\"\x7d\x7b\"It is locked.\"\x7d[:look]?lamp\"A barn.\"\x7d"

/-- The barn has two trees, and the other branch behind the condition about the key. -/
theorem Page.preorder_ofBody_barn :
    let p := (barn.ofBody barnBody ⟨0, 6⟩).1
    barn.blocks = [] ∧ barn.verbs = [] ∧
      p.blocks.map (·.children) = [[1, 4], [2, 3], [], [], [5], [], [7], [8], []] ∧
      ∃ roots, p.InPreorder roots ∧ 0 ∈ roots ∧ 6 ∈ roots ∧ p.FollowsBranch 4 := by
  intro p
  have hblocks : barn.blocks = [] := rfl
  have hdeclared : barn.verbs = [] := rfl
  have hverbs : p.verbs.map (·.root) = [0, 6] := by decide +kernel
  obtain ⟨roots, hpreorder, -, hroots, -, hplaced⟩ :=
    Page.preorder_ofBody hblocks hdeclared barnBody ⟨0, 6⟩
  have hroot : ∀ root ∈ p.verbs.map (·.root), root ∈ roots := by
    intro root hroot
    obtain ⟨v, hv, rfl⟩ := List.mem_map.mp hroot
    exact hroots v hv
  rw [hverbs] at hroot
  have helse : p.block? 4 = some ⟨.otherwise, "", [5]⟩ := by decide +kernel
  exact ⟨hblocks, hdeclared, by decide +kernel, roots, hpreorder, hroot 0 (by decide),
    hroot 6 (by decide), hplaced.others 4 _ helse rfl⟩

end Gamebook
