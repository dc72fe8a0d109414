import Gamebook.Page.Forest
import Gamebook.Play.Eval

/-!
# Running verbs

A verb runs if its guard holds; then the blocks of its body run one after the other. Texts are
shown and instructions carried out. A condition that holds has its children run; the scopes behind
it are its other branches, of which the first runs if the condition does not hold.

A break leaves as many scopes as it says: the blocks behind it in those scopes are skipped, and
running goes on behind the outermost of them.

Verbs can run verbs. How many may be running at once is limited; a call beyond that is refused.
-/

namespace Gamebook

open Script

variable {σ : Type}

section Blocks

variable (g : Setting σ) (verb : String → String → Run σ Bool) (noun : String)

/-- Run a block, with what runs its children. The answer is whether it ran, and how many more
scopes to leave. -/
def runBlock (b : Block) (body : Run σ Nat) : Run σ (Bool × Nat) :=
  if !b.isExecuted || !b.isBracketed then do
    Run.print b.expression
    return (true, 0)
  else do
    let chain ← readScript noun b.expression
    if b.hasChildren then
      if (← evalChain g verb noun chain).holds then return (true, ← body) else return (false, 0)
    else if chain.isCondition then
      Run.problem noun (.emptyCondition b.expression)
      return (false, 0)
    else
      let v ← evalChain g verb noun chain
      return (v.holds, v.breaks)

/-- Run a scope that stands for the other branch; `branch` tells whether a branch of the condition
in front has run, if there is a condition. -/
def runElse (branch : Option Bool) (body : Run σ Nat) : Run σ (Bool × Nat) :=
  match branch with
  | some false => return (true, ← body)
  | some true => return (false, 0)
  | none => do
    Run.problem noun .strayElse
    return (false, 0)

/-- Whether a branch has run, behind a block that ran or not. -/
def branchAfter (branch : Option Bool) (b : Block) (ran : Bool) : Option Bool :=
  if b.isElse then branch.map (· || ran)
  else if b.isExecuted && b.hasChildren then some ran
  else none

/-- Run blocks in their order. The answer is how many scopes to leave beyond theirs. -/
def runForest (branch : Option Bool) : Forest → Run σ Nat
  | .nil => return 0
  | .node b children rest => do
    let body := runForest none children
    let (ran, breaks) ←
      if b.isElse then runElse noun branch body else runBlock g verb noun b body
    if breaks = 0 then runForest (branchAfter branch b ran) rest else return breaks - 1

end Blocks

/-- Whether a verb is on offer. -/
def verbAvailable (g : Setting σ) (verb : String → String → Run σ Bool) (page : Page) (root : Nat) :
    Run σ Bool :=
  match page.block? root with
  | some b => return (← evalScript g verb page.name b.expression).holds
  | none => return false

/-- Run the verb at a root, if its guard holds. -/
def runRoot (g : Setting σ) (verb : String → String → Run σ Bool) (page : Page) (root : Nat) :
    Run σ Bool := do
  if ← verbAvailable g verb page root then
    let _ ← runForest g verb page.name none (page.below root)
    return true
  else return false

/-- Run a verb of a noun while `depth` more verbs may be running. The answer is whether its guard
held; a verb that cannot be found, or may not run, is reported. -/
def runVerb (g : Setting σ) : Nat → String → String → Run σ Bool
  | depth, noun, name => match g.story.lookup noun with
    | .error d => do
      Run.report d
      return false
    | .ok page => match page.findVerb? name with
      | none => do
        Run.problem noun (.verbNotFound noun name)
        return false
      | some v => match depth with
        | 0 => do
          Run.problem noun (.tooDeep noun name g.maxDepth)
          return false
        | depth + 1 => runRoot g (runVerb g depth) page v.root

end Gamebook
