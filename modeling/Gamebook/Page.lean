import Gamebook.Value

/-!
# Pages

A page is what a story says about one noun: the value it has in the beginning, and the verbs that a
player may try on it. The bodies of the verbs are trees of blocks, stored in one row and named by
their positions there. A child always comes after its parent in the row, so there are no cycles.
-/

namespace Gamebook

/-! ### Blocks -/

/-- What a block is for. -/
inductive BlockKind where
  /-- Its text is shown. -/
  | text
  /-- Its text is a script. -/
  | script
  /-- It is run when the condition in front of it was not. -/
  | otherwise
  deriving DecidableEq, Repr, Inhabited

/-- A node of the tree that a verb runs. A script with children is a condition for them. -/
structure Block where
  kind : BlockKind
  /-- The text to show, or the stored form of a script. -/
  expression : String
  /-- The positions of the children, in their order. -/
  children : List Nat := []
  deriving DecidableEq, Repr, Inhabited

namespace Block

/-- A block that shows a text. -/
def text (shown : String) : Block := ⟨.text, shown, []⟩

/-- A block that runs a script. -/
def script (expression : String) : Block := ⟨.script, expression, []⟩

/-- A block that is run instead of the one in front. -/
def otherwise : Block := ⟨.otherwise, "", []⟩

/-- Whether something is executed for the block, rather than shown. -/
def isExecuted (b : Block) : Bool := b.kind != .text

/-- Whether the block stands for the other branch of a condition. -/
def isElse (b : Block) : Bool := b.kind == .otherwise

/-- Whether the text of the block begins with a bracket. -/
def isBracketed (b : Block) : Bool := b.expression.toList.head? == some '['

/-- Whether there are children. -/
def hasChildren (b : Block) : Bool := !b.children.isEmpty

end Block

/-! ### Verbs -/

/-- Something that a player may try on a noun. -/
structure Verb where
  /-- The name in the menu. -/
  visualName : String
  /-- Every name the verb answers to. -/
  names : List String
  /-- The block at the root; its script holds the conditions under which the verb is on offer. -/
  root : Nat
  deriving DecidableEq, Repr

/-- Equality of names apart from the case of ASCII letters. -/
def sameName (a b : String) : Bool :=
  a.toList.map Char.toLower == b.toList.map Char.toLower

/-- Whether a verb has a name. -/
def Verb.answersTo (v : Verb) (name : String) : Bool :=
  v.names.any (sameName · name)

/-! ### Pages -/

/-- What a story says about a noun. -/
structure Page where
  name : String
  /-- The value of the noun while a session has no other. -/
  defaults : Value := .empty
  /-- The text the page was read from. -/
  source : String := ""
  verbs : List Verb := []
  blocks : List Block := []
  deriving DecidableEq, Repr

/-- Why a page refuses a change. -/
inductive PageError where
  /-- There is no block at that position. -/
  | blockNotFound (id : Nat)
  /-- A verb with that name is there already. -/
  | verbTaken (name : String)
  deriving DecidableEq, Repr

/-- The text of an error. -/
def PageError.message : PageError → String
  | blockNotFound id => s!"block not found: #{id}"
  | verbTaken name => s!"verb already declared: \"{name}\""

namespace Page

/-- The block at a position. -/
def block? (p : Page) (id : Nat) : Option Block :=
  p.blocks[id]?

/-- Put a block at the end; its position comes with the new page. -/
def addBlock (p : Page) (b : Block) : Page × Nat :=
  ({ p with blocks := p.blocks ++ [b] }, p.blocks.length)

/-- Put a block at the end, as the last child of another one. -/
def insertChild (p : Page) (parent : Nat) (b : Block) : Page × Nat :=
  let id := p.blocks.length
  let blocks := p.blocks.modify parent fun q => { q with children := q.children ++ [id] }
  ({ p with blocks := blocks ++ [b] }, id)

/-- Put a block at the end, as the last child of another one that must be there. -/
def addChild (p : Page) (parent : Nat) (b : Block) : Except PageError (Page × Nat) :=
  if p.blocks.length ≤ parent then .error (.blockNotFound parent) else .ok (p.insertChild parent b)

/-- Give a block another text. -/
def setExpression (p : Page) (id : Nat) (expression : String) : Page :=
  { p with blocks := p.blocks.modify id fun b => { b with expression } }

/-- The first verb with a name. -/
def findVerb? (p : Page) (name : String) : Option Verb :=
  p.verbs.find? fun v => v.answersTo name

/-- Declare a verb whose names are all free. -/
def addVerb (p : Page) (v : Verb) : Except PageError Page :=
  match v.names.find? fun name => (p.findVerb? name).isSome with
  | some name => .error (.verbTaken name)
  | none => .ok { p with verbs := p.verbs ++ [v] }

end Page

end Gamebook
