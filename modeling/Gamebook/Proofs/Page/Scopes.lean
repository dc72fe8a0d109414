import Gamebook.Proofs.Page.Statements

/-!
# Scopes that are open

While a body is read, the scopes that are open stand in a stack, but the page only knows blocks and
their children. A statement that puts a block into the innermost scope may open a scope for it, and
everything else leaves scopes at most.

From this follows what pages look like. All children of blocks are there, behind their parents and
in their order (`Page.Formed`), and as long as a scope is open its block is the last child of the
block around it (`Page.Nested`).
-/

namespace Gamebook

open Script

/-! ### Well-formed pages -/

/-- Whether all children come after their parents. -/
def Page.Ordered (p : Page) : Prop :=
  ∀ id b, p.block? id = some b → ∀ child ∈ b.children, id < child

/-- Whether all children are there, each with one parent, behind it and in their order, and those
that are scripts in brackets. -/
structure Page.Formed (p : Page) : Prop where
  ordered : p.Ordered
  parent : ∀ {id id' child b b'}, p.block? id = some b → p.block? id' = some b' →
    child ∈ b.children → child ∈ b'.children → id = id'
  sorted : ∀ id b, p.block? id = some b → b.children.Pairwise (· < ·)
  child : ∀ id b, p.block? id = some b → ∀ child ∈ b.children,
    ∃ c, p.block? child = some c ∧ (c.kind = .script → c.isBracketed)

namespace Page.Formed

variable {p q : Page}

/-- It is a matter of the blocks, not of the verbs or of the name of the page. -/
theorem of_blocks_eq (hp : p.Formed) (h : q.blocks = p.blocks) : q.Formed := by
  have hblock : ∀ id, q.block? id = p.block? id := fun id => by rw [block?, block?, h]
  refine ⟨fun id b hb => ?_, fun hb hb' => ?_, fun id b hb => ?_, fun id b hb child hchild => ?_⟩
  · exact hp.ordered id b (hblock id ▸ hb)
  · exact hp.parent (hblock _ ▸ hb) (hblock _ ▸ hb')
  · exact hp.sorted id b (hblock id ▸ hb)
  · obtain ⟨c, hc, hbracketed⟩ := hp.child id b (hblock id ▸ hb) child hchild
    exact ⟨c, (hblock child).trans hc, hbracketed⟩

theorem of_nil (h : p.blocks = []) : p.Formed where
  ordered _ _ hb := absurd hb (block?_ne_of_nil h)
  parent hb := absurd hb (block?_ne_of_nil h)
  sorted _ _ hb := absurd hb (block?_ne_of_nil h)
  child _ _ hb := absurd hb (block?_ne_of_nil h)

/-- Children are blocks of the page. -/
theorem lt_length (hp : p.Formed) {id child : Nat} {b : Block} (hb : p.block? id = some b)
    (hchild : child ∈ b.children) : child < p.blocks.length := by
  obtain ⟨c, hc, -⟩ := hp.child id b hb child hchild
  exact lt_length_of_block? hc

theorem nodup (hp : p.Formed) {id : Nat} {b : Block} (hb : p.block? id = some b) :
    b.children.Nodup :=
  (hp.sorted id b hb).imp Nat.ne_of_lt

/-- A new block without children is put last: its id is greater than all ids before, so order and
parents stay right. -/
theorem insertChild (hp : p.Formed) (parent : Nat) {b : Block} (hnew : b.children = [])
    (hbracketed : parent < p.blocks.length → b.kind = .script → b.isBracketed) :
    (p.insertChild parent b).1.Formed := by
  have hold {child : Nat} {c : Block} (hc : p.block? child = some c)
      (hbracketed : c.kind = .script → c.isBracketed) :
      ∃ c', (p.insertChild parent b).1.block? child = some c' ∧
        (c'.kind = .script → c'.isBracketed) := by
    obtain ⟨c', hc', hkind, hexpression, -⟩ := Extends.insertChild p parent b child c hc
    refine ⟨c', hc', fun hscript => ?_⟩
    rw [Block.isBracketed, hexpression]
    exact hbracketed (hkind ▸ hscript)
  have hlast : (p.insertChild parent b).1.block? p.blocks.length = some b := by
    rw [block?_insertChild, if_pos rfl]
  refine ⟨fun id x hx child hchild => ?_, fun hx hx' hchild hchild' => ?_, fun id x hx => ?_,
    fun id x hx child hchild => ?_⟩
  · rcases mem_children_insertChild hnew hx hchild with ⟨y, hy, hchild⟩ | ⟨rfl, hid, rfl⟩
    · exact hp.ordered id y hy child hchild
    · exact hid
  · rcases mem_children_insertChild hnew hx hchild with ⟨y, hy, hchild⟩ | ⟨rfl, -, rfl⟩
    · rcases mem_children_insertChild hnew hx' hchild' with ⟨y', hy', hchild'⟩ | ⟨-, -, rfl⟩
      · exact hp.parent hy hy' hchild hchild'
      · exact absurd (hp.lt_length hy hchild) (Nat.lt_irrefl _)
    · rcases mem_children_insertChild hnew hx' hchild' with ⟨y', hy', hchild'⟩ | ⟨rfl, -, -⟩
      · exact absurd (hp.lt_length hy' hchild') (Nat.lt_irrefl _)
      · rfl
  · rcases insertChild_cases hx with ⟨-, rfl⟩ | ⟨y, hy, -, -, hchildren⟩
    · rw [hnew]
      exact .nil
    · rw [hchildren]
      split
      · refine List.pairwise_append.mpr ⟨hp.sorted id y hy, List.pairwise_singleton _ _, ?_⟩
        intro child hchild next hnext
        rw [List.mem_singleton.mp hnext]
        exact hp.lt_length hy hchild
      · exact hp.sorted id y hy
  · rcases mem_children_insertChild hnew hx hchild with ⟨y, hy, hchild⟩ | ⟨-, hlt, rfl⟩
    · obtain ⟨c, hc, hc'⟩ := hp.child id y hy child hchild
      exact hold hc hc'
    · exact ⟨b, hlast, hbracketed hlt⟩

/-- A new root is a new child of no block at all. -/
theorem addBlock (hp : p.Formed) {b : Block} (hnew : b.children = []) :
    (p.addBlock b).1.Formed := by
  rw [← insertChild_length]
  exact hp.insertChild _ hnew fun hlt => absurd hlt (Nat.lt_irrefl _)

end Page.Formed

/-! ### Scopes that are open -/

/-- The block that the scopes of a verb stand around. -/
def scopeBlock (root : Nat) (scopes : List Scope) : Nat :=
  (scopes.head?.map (·.block)).getD root

/-- Whether the block of each scope is the last child of the one around it. -/
def Page.Nested (p : Page) (root : Nat) : List Scope → Prop
  | [] => root < p.blocks.length
  | s :: outer => p.Nested root outer ∧
    ∃ b, p.block? (scopeBlock root outer) = some b ∧ b.children.getLast? = some s.block

namespace Page.Nested

variable {p q : Page} {root : Nat} {scopes : List Scope}

theorem of_blocks_eq (h : p.Nested root scopes) (hblocks : q.blocks = p.blocks) :
    q.Nested root scopes := by
  induction scopes with
  | nil =>
    rw [Nested] at h ⊢
    rw [hblocks]
    exact h
  | cons s outer ih =>
    obtain ⟨houter, b, hb, hlast⟩ := h
    refine ⟨ih houter, b, ?_, hlast⟩
    rw [block?, hblocks]
    exact hb

/-- The scopes around an open scope are nested in turn. -/
theorem suffix {inner : List Scope} (h : p.Nested root scopes) (hinner : inner <:+ scopes) :
    p.Nested root inner := by
  induction scopes with
  | nil => exact List.suffix_nil.mp hinner ▸ h
  | cons s outer ih =>
    rcases List.suffix_cons_iff.mp hinner with rfl | hinner
    · exact h
    · exact ih h.1 hinner

/-- The innermost block is there. -/
theorem lt_length (hp : p.Formed) (h : p.Nested root scopes) :
    scopeBlock root scopes < p.blocks.length := by
  cases scopes with
  | nil => exact h
  | cons s outer =>
    obtain ⟨-, b, hb, hlast⟩ := h
    exact hp.lt_length hb (List.mem_of_getLast? hlast)

/-- A new child of the innermost block, or of one behind it, changes none of the blocks around. -/
theorem insertChild (hp : p.Formed) (h : p.Nested root scopes) {parent : Nat}
    (hparent : scopeBlock root scopes ≤ parent) (b : Block) :
    (p.insertChild parent b).1.Nested root scopes := by
  induction scopes with
  | nil =>
    rw [Nested] at h ⊢
    rw [length_insertChild]
    exact Nat.lt_succ_of_lt h
  | cons s outer ih =>
    obtain ⟨houter, x, hx, hlast⟩ := h
    have hlt : scopeBlock root outer < s.block :=
      hp.ordered _ x hx _ (List.mem_of_getLast? hlast)
    have hbehind : s.block ≤ parent := hparent
    refine ⟨ih houter (by omega), x, ?_, hlast⟩
    have hne : scopeBlock root outer ≠ p.blocks.length :=
      Nat.ne_of_lt (houter.lt_length hp)
    have hne' : parent ≠ scopeBlock root outer := by omega
    rw [block?_insertChild, if_neg hne, hx, Option.map_some, if_neg hne']

/-- The innermost block gets a new child. -/
theorem open_insertChild (hp : p.Formed) (h : p.Nested root scopes) (b : Block) (implied : Bool) :
    (p.insertChild (scopeBlock root scopes) b).1.Nested root
      (⟨p.blocks.length, implied⟩ :: scopes) := by
  have hlt := h.lt_length hp
  refine ⟨h.insertChild hp (Nat.le_refl _) b, ?_⟩
  rw [block?_insertChild, if_neg (Nat.ne_of_lt hlt), block?, List.getElem?_eq_getElem hlt,
    Option.map_some, if_pos rfl]
  exact ⟨_, rfl, List.getLast?_concat⟩

end Page.Nested

/-! ### Drafts -/

namespace Draft

variable {d e d' : Draft} {c : Char} {rest : List Char} {a : Option Above} {v : OpenVerb}
  {b : Block} {scope : Option Bool}

/-- The stored form of a script begins with a bracket. -/
theorem isBracketed_chainText (kind : Char) (run : List Char) :
    (Block.script (String.ofList (chainText kind run))).isBracketed := by
  rw [Block.isBracketed, Block.script, String.toList_ofList]
  rfl

/-- What is put on a page has no children yet. -/
theorem Puts.children_eq_nil (h : Puts d c rest e v b scope) : b.children = [] := by
  cases h with
  | text | instruction | condition | otherwise => rfl

/-- Of the four kinds of block that are put, those that are scripts are stored in brackets. -/
theorem Puts.isBracketed (h : Puts d c rest e v b scope) (hscript : b.kind = .script) :
    b.isBracketed := by
  cases h with
  | text => cases hscript
  | instruction hstored => exact hstored ▸ isBracketed_chainText _ _
  | condition => exact isBracketed_chainText _ _
  | otherwise => cases hscript

/-- What holds of the blocks of a draft and of the scopes that are open. -/
structure Shaped (d : Draft) : Prop where
  formed : d.page.Formed
  nested : ∀ v, d.verb = some v → d.page.Nested v.root v.inner

/-- Reporting and leaving scopes keep the shape, as the blocks stay and fewer scopes are open. -/
theorem Shaped.settle (h : d.Shaped) (hd : Settles d e) : e.Shaped := by
  refine ⟨h.formed.of_blocks_eq hd.blocks, fun v' hv' => ?_⟩
  obtain ⟨v, hv, -, hroot, hinner⟩ := hd.verb v' hv'
  rw [hroot]
  exact ((h.nested v hv).suffix hinner).of_blocks_eq hd.blocks

/-- What one element of a body makes of a settled draft keeps the shape. -/
theorem Shaped.change (h : e.Shaped) (hchange : Change d c rest a e d') : d'.Shaped := by
  cases hchange with
  | nothing => exact h
  | pend | close => exact ⟨h.formed, h.nested⟩
  | @put c rest e v b scope hv hputs =>
    have hnested := h.nested v hv
    refine ⟨h.formed.insertChild _ hputs.children_eq_nil fun _ => hputs.isBracketed, ?_⟩
    rintro v' ⟨⟩
    cases scope with
    | none => exact hnested.insertChild h.formed (Nat.le_refl _) b
    | some implied => exact hnested.open_insertChild h.formed b implied
  | opened =>
    refine ⟨h.formed.addBlock rfl, ?_⟩
    rintro v' ⟨⟩
    rw [Page.Nested, opened, Page.addBlock, List.length_append]
    exact Nat.lt_succ_self _

/-- Every draft that reading a body comes to. -/
theorem Reached.shaped {page : Page} (hnew : page.blocks = []) {body cs : List Char} {origin : Span}
    (h : Reached { page, origin } body d cs) : d.Shaped := by
  refine h.kept ⟨.of_nil hnew, fun v hv => ?_⟩ (·.settle) fun _ _ _ => Shaped.change
  cases hv

end Draft

/-- The blocks of a page that is read of a body are in order. -/
theorem Page.formed_ofBody {page : Page} (body : String) (origin : Span)
    (hnew : page.blocks = []) : (page.ofBody body origin).1.Formed := by
  have hstart : Draft.Reached { page, origin } body.toList { page, origin } body.toList := .start
  exact (hstart.run.shaped hnew).formed.of_blocks_eq (blocks_ofBody body origin)

end Gamebook
