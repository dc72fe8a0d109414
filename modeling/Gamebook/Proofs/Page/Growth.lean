import Gamebook.Page

/-!
# Pages that grow

Blocks are put at the end of a page, below another block or below none, and no block is ever taken
away. What is said here of one more block is all that is needed of it elsewhere: which blocks the
page has then (`Page.block?_insertChild`), whose children they are
(`Page.mem_children_insertChild`), and that the page has all that it had (`Page.Extends`).
-/

namespace Gamebook

namespace Page

/-- The blocks of a page with a new child. -/
theorem block?_insertChild (p : Page) (parent : Nat) (b : Block) (id : Nat) :
    (p.insertChild parent b).1.block? id = if id = p.blocks.length then some b
      else (p.block? id).map fun x =>
        if parent = id then { x with children := x.children ++ [p.blocks.length] } else x := by
  rw [insertChild, block?, block?]
  dsimp only
  split
  next h =>
    subst h
    rw [List.getElem?_append_right (Nat.le_of_eq (List.length_modify ..)), List.length_modify,
      Nat.sub_self]
    rfl
  next h =>
    rcases Nat.lt_or_gt_of_ne h with hlt | hgt
    · rw [List.getElem?_append_left (by rw [List.length_modify]; exact hlt), List.getElem?_modify]
      rfl
    · rw [List.getElem?_eq_none (by
        rw [List.length_append, List.length_modify, List.length_singleton]
        exact hgt), List.getElem?_eq_none (Nat.le_of_lt hgt), Option.map_none]

/-- A block of a page with a new child is the new one, or an old one that may have got it. -/
theorem insertChild_cases {p : Page} {parent : Nat} {b : Block} {id : Nat} {x : Block}
    (h : (p.insertChild parent b).1.block? id = some x) :
    (id = p.blocks.length ∧ x = b) ∨ ∃ y, p.block? id = some y ∧ x.kind = y.kind ∧
      x.expression = y.expression ∧
      x.children = if parent = id then y.children ++ [p.blocks.length] else y.children := by
  rw [block?_insertChild] at h
  split at h
  next hid => exact .inl ⟨hid, (Option.some.inj h).symm⟩
  next hid =>
    obtain ⟨y, hy, rfl⟩ := Option.map_eq_some_iff.mp h
    refine .inr ⟨y, hy, ?_⟩
    split
    · exact ⟨rfl, rfl, rfl⟩
    · exact ⟨rfl, rfl, rfl⟩

theorem lt_length_of_block? {p : Page} {id : Nat} {b : Block} (h : p.block? id = some b) :
    id < p.blocks.length :=
  (List.getElem?_eq_some_iff.mp h).1

theorem block?_ne_of_nil {p : Page} (h : p.blocks = []) {id : Nat} {b : Block} :
    p.block? id ≠ some b := by
  rw [block?, h]
  rintro ⟨⟩

/-- One block is added, whether its parent is there or not. -/
theorem length_insertChild (p : Page) (parent : Nat) (b : Block) :
    (p.insertChild parent b).1.blocks.length = p.blocks.length + 1 := by
  rw [insertChild, List.length_append, List.length_modify]
  rfl

/-- The children are those of before, and the new block below its parent. -/
theorem mem_children_insertChild {p : Page} {parent : Nat} {b : Block} (hnew : b.children = [])
    {id child : Nat} {x : Block} (hx : (p.insertChild parent b).1.block? id = some x)
    (hchild : child ∈ x.children) :
    (∃ y, p.block? id = some y ∧ child ∈ y.children) ∨
      (id = parent ∧ parent < p.blocks.length ∧ child = p.blocks.length) := by
  rcases insertChild_cases hx with ⟨-, rfl⟩ | ⟨y, hy, -, -, hchildren⟩
  · rw [hnew] at hchild
    cases hchild
  · rw [hchildren] at hchild
    split at hchild
    next hid =>
      rcases List.mem_append.mp hchild with hchild | hchild
      · exact .inl ⟨y, hy, hchild⟩
      · exact .inr ⟨hid.symm, hid ▸ lt_length_of_block? hy, List.mem_singleton.mp hchild⟩
    next => exact .inl ⟨y, hy, hchild⟩

/-- A block below none is put in like one below a block that is not there. -/
theorem insertChild_length (p : Page) (b : Block) :
    p.insertChild p.blocks.length b = p.addBlock b := by
  rw [insertChild, addBlock, List.modify_eq_self (Nat.le_refl _)]

/-- Whether one page has the blocks of another one, perhaps with more children behind their own. -/
def Extends (p q : Page) : Prop :=
  ∀ id b, p.block? id = some b → ∃ b', q.block? id = some b' ∧ b'.kind = b.kind ∧
    b'.expression = b.expression ∧ b.children <+: b'.children

namespace Extends

theorem of_blocks_eq {p q : Page} (h : q.blocks = p.blocks) : p.Extends q := by
  intro id b hb
  rw [block?, ← h] at hb
  exact ⟨b, hb, rfl, rfl, List.prefix_refl _⟩

/-- A page that grows twice has grown. -/
theorem trans {p q r : Page} (h : p.Extends q) (h' : q.Extends r) : p.Extends r := by
  intro id b hb
  obtain ⟨b', hb', hkind, hexpression, hchildren⟩ := h id b hb
  obtain ⟨b'', hb'', hkind', hexpression', hchildren'⟩ := h' id b' hb'
  exact ⟨b'', hb'', hkind'.trans hkind, hexpression'.trans hexpression,
    hchildren.trans hchildren'⟩

/-- The parent gets one child more, and no block is taken away. -/
theorem insertChild (p : Page) (parent : Nat) (b : Block) :
    p.Extends (p.insertChild parent b).1 := by
  intro id x hx
  rw [block?_insertChild, if_neg (Nat.ne_of_lt (lt_length_of_block? hx)), hx, Option.map_some]
  refine ⟨_, rfl, ?_⟩
  split
  · exact ⟨rfl, rfl, List.prefix_append _ _⟩
  · exact ⟨rfl, rfl, List.prefix_refl _⟩

theorem addBlock (p : Page) (b : Block) : p.Extends (p.addBlock b).1 := by
  rw [← insertChild_length]
  exact insertChild p _ b

/-- Blocks that are kept are not fewer. -/
theorem length_le {p q : Page} (h : p.Extends q) : p.blocks.length ≤ q.blocks.length := by
  refine Nat.le_of_not_lt fun hlt => ?_
  obtain ⟨b, hb, -⟩ := h q.blocks.length _ (List.getElem?_eq_getElem hlt)
  exact absurd (lt_length_of_block? hb) (Nat.lt_irrefl _)

/-- A child that was put in stays directly behind the one in front. -/
theorem of_insertChild {p q : Page} {parent : Nat} {b x : Block}
    (h : (p.insertChild parent b).1.Extends q) (hx : p.block? parent = some x) :
    (∃ y, q.block? parent = some y ∧ x.children ++ [p.blocks.length] <+: y.children) ∧
      ∃ c, q.block? p.blocks.length = some c ∧ c.kind = b.kind ∧ c.expression = b.expression := by
  have hparent := h parent { x with children := x.children ++ [p.blocks.length] } (by
    rw [block?_insertChild, if_neg (Nat.ne_of_lt (lt_length_of_block? hx)), hx, Option.map_some,
      if_pos rfl])
  have hchild := h p.blocks.length b (by rw [block?_insertChild, if_pos rfl])
  obtain ⟨y, hy, -, -, hchildren⟩ := hparent
  obtain ⟨c, hc, hkind, hexpression, -⟩ := hchild
  exact ⟨⟨y, hy, hchildren⟩, c, hc, hkind, hexpression⟩

end Extends

/-! ### Scripts -/

/-- Whether all scripts of a page have some property. -/
def EveryScript (P : String → Prop) (p : Page) : Prop :=
  ∀ b ∈ p.blocks, b.isExecuted → P b.expression

namespace EveryScript

variable {P Q : String → Prop} {p q : Page} {b : Block}

theorem of_blocks_eq (hp : p.EveryScript P) (h : q.blocks = p.blocks) : q.EveryScript P := by
  rw [EveryScript, h]
  exact hp

/-- What follows from something that holds of every script holds of every script. -/
theorem imp (hp : p.EveryScript P) (h : ∀ expression, P expression → Q expression) :
    p.EveryScript Q :=
  fun b hb hexecuted => h _ (hp b hb hexecuted)

theorem insertChild (hp : p.EveryScript P) (parent : Nat) (hb : b.isExecuted → P b.expression) :
    (p.insertChild parent b).1.EveryScript P := by
  intro x hx hexecuted
  obtain ⟨id, hid⟩ := List.mem_iff_getElem?.mp hx
  rcases insertChild_cases hid with ⟨-, rfl⟩ | ⟨y, hy, hkind, hexpression, -⟩
  · exact hb hexecuted
  · rw [hexpression]
    rw [Block.isExecuted, hkind] at hexecuted
    exact hp y (List.mem_of_getElem? hy) hexecuted

theorem addBlock (hp : p.EveryScript P) (hb : b.isExecuted → P b.expression) :
    (p.addBlock b).1.EveryScript P := by
  rw [← insertChild_length]
  exact hp.insertChild _ hb

end EveryScript

end Page

end Gamebook
