import Gamebook.Page

/-!
# Forests of blocks

A page keeps its blocks in one row; to run some of them they are taken out as a forest. Only
children that come after their parent are taken, so the forest is always finite. On a page that was
built by adding blocks there are no others.
-/

namespace Gamebook

/-- A row of blocks, each with the forest of its children. -/
inductive Forest where
  | nil
  | node (block : Block) (children rest : Forest)
  deriving Repr

/-- The forest of some blocks of a page, as far as they come after a parent. -/
def Page.forestFrom (p : Page) (parent : Nat) (ids : List Nat) : Forest :=
  ids.foldr (fun id rest =>
    if parent < id then
      match _found : p.blocks[id]? with
      | none => rest
      | some b => .node b (p.forestFrom id b.children) rest
    else rest) .nil
termination_by p.blocks.length - parent
decreasing_by
  have := (List.getElem?_eq_some_iff.1 _found).1
  omega

/-- The forest below a block. -/
def Page.below (p : Page) (id : Nat) : Forest :=
  match p.block? id with
  | some b => p.forestFrom id b.children
  | none => .nil

end Gamebook
