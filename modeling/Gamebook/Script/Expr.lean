/-!
# Expressions, conditions and instructions

The trees that scripts spell. An expression joins terms by operators, from left to right; a term
is the union of items; an item is a primary that may be applied to arguments as a function. A
chain is a row of conditions and instructions between connectors.
-/

namespace Gamebook.Script

/-- An operator between terms. -/
inductive Operator where
  /-- `+`: union of the atoms, sum of the integers. -/
  | union
  /-- `-`: difference of both. -/
  | difference
  /-- `/`: common atoms, quotient of the integers. -/
  | intersect
  /-- `*`: joined atoms, product of the integers. -/
  | concat
  deriving DecidableEq, Repr

mutual

/-- A leaf of an expression. -/
inductive Primary where
  /-- A text atom, or the name of a noun where a noun is wanted. -/
  | atom (name : String)
  /-- `#5` or `#-3` -/
  | integer (n : Int64)
  /-- `#noun`: the integer of a noun. -/
  | integerOf (noun : String)
  /-- `@noun`: the value of a noun. -/
  | deref (noun : String)
  /-- `noun:verb`, or `:verb` on the noun at hand: run a verb, and tell whether it ran. -/
  | verbCall (noun : Option String) (verb : String)
  /-- `( expression )` -/
  | group (e : Expr)

/-- A primary by itself, or its atoms as names of functions to apply. -/
inductive Item where
  | primary (p : Primary)
  /-- `callee()` -/
  | invoke (callee : Primary)
  /-- `callee(arguments)` -/
  | apply (callee : Primary) (arguments : Expr)

/-- Items between commas. -/
inductive Term where
  | item (i : Item)
  | join (i : Item) (rest : Term)

/-- Terms between operators. -/
inductive Expr where
  | term (t : Term)
  | binary (left : Expr) (op : Operator) (right : Term)

end

deriving instance DecidableEq, Repr for Primary, Item, Term, Expr

/-- The items of a term. -/
def Term.items : Term → List Item
  | .item i => [i]
  | .join i rest => i :: rest.items

/-- The term of a first item and further ones. -/
def Term.ofItems (first : Item) : List Item → Term
  | [] => .item first
  | next :: rest => .join first (Term.ofItems next rest)

/-- The leftmost term of an expression. -/
def Expr.head : Expr → Term
  | .term t => t
  | .binary left _ _ => left.head

/-- The operators behind the leftmost term, each with its right side. -/
def Expr.tail : Expr → List (Operator × Term)
  | .term _ => []
  | .binary left op right => left.tail ++ [(op, right)]

/-- The expression of a first term and the operations behind it. -/
def Expr.ofTerms (first : Term) (rest : List (Operator × Term)) : Expr :=
  rest.foldl (fun e (op, t) => .binary e op t) (.term first)

/-- The expression of a single primary. -/
def Expr.ofPrimary (p : Primary) : Expr :=
  .term (.item (.primary p))

/-- The name that an expression spells, if it is a lone atom. -/
def Expr.asAtom? : Expr → Option String
  | .term (.item (.primary (.atom name))) => some name
  | _ => none

/-! ### Segments -/

/-- How a condition compares. -/
inductive Comparison where
  /-- `=` or `+=`: every atom of the value is held. -/
  | contains
  /-- `-=`: no atom of the value is held. -/
  | notContains
  /-- `==` -/
  | equals
  /-- `<>` -/
  | notEquals
  /-- `<=` -/
  | atMost
  /-- `>=` -/
  | atLeast
  /-- `>` -/
  | more
  /-- `<` -/
  | less
  deriving DecidableEq, Repr

/-- A condition. -/
inductive Condition where
  /-- The empty condition. -/
  | always
  /-- A comparison; without a subject about the noun at hand, without a value with nothing. -/
  | compare (subject : Option Expr) (comparison : Comparison) (value : Option Expr)
  /-- An expression, true if its value counts as true. -/
  | bare (e : Expr)
  deriving DecidableEq, Repr

/-- How an instruction changes a value. -/
inductive Change where
  /-- `+=` -/
  | add
  /-- `-=` -/
  | remove
  /-- `=` -/
  | assign
  deriving DecidableEq, Repr

/-- What an instruction does. -/
inductive Action where
  /-- A change of some nouns; without a target of the noun at hand, without a value by nothing. -/
  | change (target : Option Expr) (change : Change) (value : Option Expr)
  /-- An expression, for its effects. -/
  | bare (e : Expr)
  deriving DecidableEq, Repr

/-- An action, if any, and how many scopes to leave after it. -/
structure Instruction where
  action : Option Action
  breaks : Nat
  deriving DecidableEq, Repr

/-- A bracketed part of a chain. -/
inductive Segment where
  /-- `[?...]` -/
  | condition (c : Condition)
  /-- `[!...]` -/
  | instruction (i : Instruction)
  /-- A part that could not be read; it counts as false. -/
  | invalid
  deriving DecidableEq, Repr

/-- What joins two segments. -/
inductive Connector where
  /-- `&` -/
  | and
  /-- `|` -/
  | or
  deriving DecidableEq, Repr

/-- Segments with the connector in front of each but the first. -/
structure Chain where
  first : Segment
  rest : List (Connector × Segment)
  deriving DecidableEq, Repr

/-- Whether a segment is a condition. -/
def Segment.isCondition : Segment → Bool
  | .condition _ => true
  | _ => false

/-- Whether a chain only asks. -/
def Chain.isCondition (c : Chain) : Bool :=
  c.first.isCondition && c.rest.all fun (_, s) => s.isCondition

end Gamebook.Script
