import Gamebook.Proofs.Page.Scopes

/-!
# Trees in a row

The blocks of a page stand in one row, and a verb runs trees of them. Where some trees fill a part
of the row one after the other, each root directly in front of what is below it, their blocks are
numbered as one comes to them from the top (`Page.Numbered`). Then a tree is a part of the row
without a gap (`Page.Numbered.within_iff`), and a block is either one of the roots or the child of
another block (`Page.Numbered.root_or_child`).

The row stays so if a block is put at its end, below the last root or the last child of a block that
is itself such a one (`Page.Numbered.insertChild`).
-/

namespace Gamebook

namespace Page

/-! ### Children -/

/-- Whether one block is a child of another one. -/
def IsChild (p : Page) (parent child : Nat) : Prop :=
  ∃ b, p.block? parent = some b ∧ child ∈ b.children

/-- Whether a block belongs to the tree of another one. -/
def Within (p : Page) : Nat → Nat → Prop :=
  Relation.ReflTransGen p.IsChild

/-- Whether some trees of blocks fill the row from one place to another: these are their roots, in
their order, and the children of each block follow on it with their trees. -/
inductive Numbered (p : Page) : Nat → List Nat → Nat → Prop
  /-- No trees. -/
  | nil (start : Nat) : Numbered p start [] start
  /-- A tree in front of some others. -/
  | cons {id : Nat} {b : Block} {mid : Nat} {ids : List Nat} {stop : Nat} :
      p.block? id = some b → Numbered p (id + 1) b.children mid → Numbered p mid ids stop →
      Numbered p id (id :: ids) stop

/-- Whether a block is the last root of some trees, or a last child below it. -/
inductive OnEdge (p : Page) : List Nat → Nat → Prop
  /-- The last root. -/
  | root {ids : List Nat} {id : Nat} : ids.getLast? = some id → OnEdge p ids id
  /-- Further below the last root. -/
  | deeper {ids : List Nat} {id id' : Nat} {b : Block} : ids.getLast? = some id →
      p.block? id = some b → OnEdge p b.children id' → OnEdge p ids id'

namespace Numbered

variable {p q : Page} {start stop : Nat} {ids : List Nat}

theorem le (h : p.Numbered start ids stop) : start ≤ stop := by
  induction h with
  | nil => exact Nat.le_refl _
  | cons _ _ _ ihbelow ih => omega

/-- All roots stand in the part of the row that the trees fill. -/
theorem bounds (h : p.Numbered start ids stop) {id : Nat} (hid : id ∈ ids) :
    start ≤ id ∧ id < stop := by
  induction h with
  | nil => cases hid
  | cons _ hbelow hrest _ ih =>
    have hmid := hbelow.le
    have hstop := hrest.le
    rcases List.mem_cons.mp hid with rfl | hid
    · omega
    · have := ih hid
      omega

/-- Some trees behind some others. -/
theorem append {mid : Nat} {others : List Nat} (h : p.Numbered start ids mid)
    (hbehind : p.Numbered mid others stop) : p.Numbered start (ids ++ others) stop := by
  induction h with
  | nil => exact hbehind
  | cons hb hbelow _ _ ih => exact .cons hb hbelow (ih hbehind)

/-- A block without children is a tree. -/
theorem single {id : Nat} {b : Block} (hb : p.block? id = some b) (hleaf : b.children = []) :
    p.Numbered id [id] (id + 1) :=
  .cons hb (hleaf ▸ .nil (id + 1)) (.nil (id + 1))

/-- Only the blocks in a part of the row matter for the trees that fill it. -/
theorem congr (h : p.Numbered start ids stop)
    (hsame : ∀ id, start ≤ id → id < stop → q.block? id = p.block? id) :
    q.Numbered start ids stop := by
  induction h with
  | nil => exact .nil _
  | @cons id b mid ids stop hb hbelow hrest ihbelow ih =>
    have hmid := hbelow.le
    have hstop := hrest.le
    refine .cons ((hsame id (Nat.le_refl _) (by omega)).trans hb) (ihbelow fun i _ _ => ?_)
      (ih fun i _ _ => ?_)
    · exact hsame i (by omega) (by omega)
    · exact hsame i (by omega) (by omega)

/-! ### What is below a block -/

/-- A block in a part of the row that trees fill has its own tree there. -/
theorem tree (h : p.Numbered start ids stop) {id : Nat} (hstart : start ≤ id) (hstop : id < stop) :
    ∃ b next, p.block? id = some b ∧ p.Numbered (id + 1) b.children next ∧ next ≤ stop := by
  induction h with
  | nil => omega
  | @cons first b mid ids stop hb hbelow hrest ihbelow ih =>
    have hmid := hrest.le
    rcases Nat.lt_trichotomy id first with hlt | rfl | hgt
    · omega
    · exact ⟨b, mid, hb, hbelow, hmid⟩
    · rcases Nat.lt_or_ge id mid with hlt | hge
      · obtain ⟨b', next, hb', hbelow', hnext⟩ := ihbelow (by omega) hlt
        exact ⟨b', next, hb', hbelow', Nat.le_trans hnext hmid⟩
      · exact ih hge hstop

/-- A child of a block stands in the same part of the row that trees fill. -/
theorem isChild_bounds (h : p.Numbered start ids stop) {parent child : Nat}
    (hstart : start ≤ parent) (hstop : parent < stop) (hchild : p.IsChild parent child) :
    parent < child ∧ child < stop := by
  obtain ⟨b, next, hb, hbelow, hnext⟩ := h.tree hstart hstop
  obtain ⟨b', hb', hmem⟩ := hchild
  cases hb.symm.trans hb'
  have := hbelow.bounds hmem
  omega

/-- Each block is below one of the roots. -/
theorem within_root (h : p.Numbered start ids stop) {id : Nat} (hstart : start ≤ id)
    (hstop : id < stop) : ∃ root ∈ ids, p.Within root id := by
  induction h with
  | nil => omega
  | @cons first b mid ids stop hb hbelow hrest ihbelow ih =>
    rcases Nat.lt_trichotomy id first with hlt | rfl | hgt
    · omega
    · exact ⟨id, List.mem_cons_self, .refl⟩
    · rcases Nat.lt_or_ge id mid with hlt | hge
      · obtain ⟨child, hchild, hwithin⟩ := ihbelow (by omega) hlt
        exact ⟨first, List.mem_cons_self, .head ⟨b, hb, hchild⟩ hwithin⟩
      · obtain ⟨root, hroot, hwithin⟩ := ih hge hstop
        exact ⟨root, List.mem_cons_of_mem _ hroot, hwithin⟩

/-- The tree of a block is a part of the row without a gap, with the block in front. -/
theorem within_iff {id next : Nat} {b : Block} (hb : p.block? id = some b)
    (h : p.Numbered (id + 1) b.children next) (id' : Nat) :
    p.Within id id' ↔ id ≤ id' ∧ id' < next := by
  have hself : p.Numbered id [id] next := .cons hb h (.nil next)
  have hle := h.le
  constructor
  · intro hwithin
    induction hwithin with
    | refl => omega
    | tail _ hchild ih =>
      have := hself.isChild_bounds ih.1 ih.2 hchild
      omega
  · rintro ⟨hge, hlt⟩
    obtain ⟨root, hroot, hwithin⟩ := hself.within_root hge hlt
    rw [List.mem_singleton.mp hroot] at hwithin
    exact hwithin

/-- Each block is a root or the child of a block in the same part of the row. -/
theorem root_or_child (h : p.Numbered start ids stop) {id : Nat} (hstart : start ≤ id)
    (hstop : id < stop) : id ∈ ids ∨ ∃ parent, p.IsChild parent id := by
  obtain ⟨root, hroot, hwithin⟩ := h.within_root hstart hstop
  rcases hwithin.cases_tail with rfl | ⟨parent, -, hchild⟩
  · exact .inl hroot
  · exact .inr ⟨parent, hchild⟩

/-- A root is no child of a block in the same part of the row. -/
theorem not_isChild (h : p.Numbered start ids stop) {root : Nat} (hroot : root ∈ ids) {parent : Nat}
    (hstart : start ≤ parent) (hstop : parent < stop) : ¬ p.IsChild parent root := by
  induction h with
  | nil => cases hroot
  | @cons id b mid ids stop hb hbelow hrest ihbelow ih =>
    have hmid := hbelow.le
    intro hchild
    rcases Nat.lt_or_ge parent mid with hlt | hge
    · -- the parent belongs to the first tree
      have hfirst : p.Numbered id [id] mid := .cons hb hbelow (.nil mid)
      have hbounds := hfirst.isChild_bounds hstart hlt hchild
      rcases List.mem_cons.mp hroot with rfl | hroot
      · omega
      · have := (hrest.bounds hroot).1
        omega
    · rcases List.mem_cons.mp hroot with rfl | hroot
      · have := (hrest.isChild_bounds hge hstop hchild).1
        omega
      · exact ih hroot hge hstop hchild

/-! ### A block at the end -/

theorem bounds_onEdge (h : p.Numbered start ids stop) {id : Nat} (hid : p.OnEdge ids id) :
    start ≤ id ∧ id < stop := by
  induction hid generalizing start stop with
  | root hlast => exact h.bounds (List.mem_of_getLast? hlast)
  | @deeper ids id id' b hlast hb _ ih =>
    have hbounds := h.bounds (List.mem_of_getLast? hlast)
    obtain ⟨b', next, hb', hbelow, hnext⟩ := h.tree hbounds.1 hbounds.2
    cases hb.symm.trans hb'
    have := ih hbelow
    omega

/-- The row goes on with a block below one at the edge. -/
theorem insertChild {b : Block} (hleaf : b.children = []) {parent : Nat}
    (h : p.Numbered start ids p.blocks.length) (hparent : p.OnEdge ids parent) :
    (p.insertChild parent b).1.Numbered start ids (p.blocks.length + 1) := by
  generalize hend : p.blocks.length = stop at h
  have hlast : (p.insertChild parent b).1.block? stop = some b := by
    rw [block?_insertChild, hend, if_pos rfl]
  have hold {id : Nat} (hlt : id < stop) (hne : parent ≠ id) :
      (p.insertChild parent b).1.block? id = p.block? id := by
    rw [block?_insertChild, hend, if_neg (Nat.ne_of_lt hlt)]
    simp [hne]
  induction h with
  | nil => cases hparent <;> contradiction
  | @cons id x mid ids stop hx hbelow hrest ihbelow ih =>
    have hmid := hbelow.le
    have hstop := hrest.le
    rcases ids with _ | ⟨next, more⟩
    · cases hrest
      cases hparent with
      | root hid =>
        -- the last root gets the block
        obtain rfl : id = parent := Option.some.inj hid
        have hx' : (p.insertChild id b).1.block? id =
            some { x with children := x.children ++ [mid] } := by
          rw [block?_insertChild, hend, if_neg (by omega), hx, Option.map_some, if_pos rfl]
        have hsame : (p.insertChild id b).1.Numbered (id + 1) x.children mid :=
          hbelow.congr fun i _ hlt => hold hlt (by omega)
        exact .cons hx' (hsame.append (single hlast hleaf)) (.nil (mid + 1))
      | deeper hid hx' hdeeper =>
        obtain rfl := Option.some.inj hid
        cases hx.symm.trans hx'
        have hbounds := hbelow.bounds_onEdge hdeeper
        exact .cons ((hold (by omega) (by omega)).trans hx)
          (ihbelow hdeeper hend hlast hold) (.nil (mid + 1))
    · -- the first tree stays as it is
      have hbehind : p.OnEdge (next :: more) parent := by
        cases hparent with
        | root hid => exact .root (by rwa [List.getLast?_cons_cons] at hid)
        | deeper hid hx' hdeeper =>
          exact .deeper (by rwa [List.getLast?_cons_cons] at hid) hx' hdeeper
      have hbounds := hrest.bounds_onEdge hbehind
      exact .cons ((hold (by omega) (by omega)).trans hx)
        (hbelow.congr fun i _ hlt => hold (by omega) (by omega)) (ih hbehind hend hlast hold)

/-- The row goes on with a root. -/
theorem addBlock {b : Block} (hleaf : b.children = []) (h : p.Numbered start ids p.blocks.length) :
    (p.addBlock b).1.Numbered start (ids ++ [p.blocks.length]) (p.blocks.length + 1) := by
  have hsame : ∀ id, start ≤ id → id < p.blocks.length →
      (p.addBlock b).1.block? id = p.block? id := fun id _ hlt => List.getElem?_append_left hlt
  have hlast : (p.addBlock b).1.block? p.blocks.length = some b := List.getElem?_concat_length
  exact (h.congr hsame).append (single hlast hleaf)

end Numbered

variable {p : Page} {ids : List Nat}

/-- A last child of a block at the edge is at the edge. -/
theorem OnEdge.lastChild {id child : Nat} {b : Block} (h : p.OnEdge ids id)
    (hb : p.block? id = some b) (hchild : b.children.getLast? = some child) :
    p.OnEdge ids child := by
  induction h with
  | root hlast => exact .deeper hlast hb (.root hchild)
  | deeper hlast hx _ ih => exact .deeper hlast hx (ih hb)

/-- The blocks that the scopes of a verb stand around are at the edge, if its root is the last. -/
theorem Nested.onEdge {root : Nat} {scopes : List Scope} (h : p.Nested root scopes)
    (hroot : ids.getLast? = some root) : p.OnEdge ids (scopeBlock root scopes) := by
  induction scopes with
  | nil => exact .root hroot
  | cons s outer ih =>
    obtain ⟨houter, b, hb, hlast⟩ := h
    exact (ih houter).lastChild hb hlast

end Page

end Gamebook
