/-!
# Histories

What happened in a play-through is kept in logs that only grow at their ends: the actions of the
player, the sets of active assets, and for each variable the literals of its values. One change log
for all variables says which history grew, and to what length. The state at any moment can be had
from the lengths of the logs alone; such lengths are a *snapshot*.
-/

namespace Gamebook

/-! ### Snapshots -/

/-- The lengths of the logs at a moment. -/
structure Snapshot where
  /-- The number of actions. -/
  queue : Nat
  /-- The number of asset sets. -/
  assets : Nat
  /-- The number of changes of variables. -/
  changes : Nat
  deriving DecidableEq, Repr, Inhabited

/-- The start of the story. -/
def Snapshot.start : Snapshot := ⟨0, 0, 0⟩

/-- Whether no log is shorter than at another moment. -/
def Snapshot.follows (s previous : Snapshot) : Bool :=
  previous.queue ≤ s.queue && previous.assets ≤ s.assets && previous.changes ≤ s.changes

/-! ### Logs -/

/-- The literals of a noun's values, oldest first. -/
structure Variable where
  name : String
  values : List String := []
  deriving DecidableEq, Repr

/-- The logs of a play-through. -/
structure History where
  /-- The actions, as `noun:verb`. -/
  queue : List String := []
  /-- The sets of active assets, each sorted. -/
  assets : List (List String) := []
  /-- The variables in the order of their first changes. -/
  tracked : List Variable := []
  /-- The position of each variable that changed, with the length of its history after that. -/
  changes : List (Nat × Nat) := []
  deriving DecidableEq, Repr, Inhabited

namespace History

/-- The lengths of the logs. -/
def tip (h : History) : Snapshot :=
  ⟨h.queue.length, h.assets.length, h.changes.length⟩

/-- The position of a variable. -/
def index? (h : History) (name : String) : Option Nat :=
  h.tracked.findIdx? fun v => v.name == name

/-- The history of a variable. -/
def values? (h : History) (name : String) : Option (List String) :=
  (h.tracked.find? fun v => v.name == name).map (·.values)

/-! ### Recording -/

/-- Record an action. -/
def recordAction (h : History) (entry : String) : History :=
  { h with queue := h.queue ++ [entry] }

/-- Record the active assets, unless they are what they were. In the beginning none are. -/
def recordAssets (h : History) (active : List String) : History × Bool :=
  let active := active.mergeSort
  if h.assets.getLastD [] == active then (h, false)
  else ({ h with assets := h.assets ++ [active] }, true)

/-- The position of a variable, which is new or not. -/
def register (h : History) (name : String) : History × Nat :=
  match h.index? name with
  | some id => (h, id)
  | none => ({ h with tracked := h.tracked ++ [{ name }] }, h.tracked.length)

/-- Record the value of a variable, unless it is what it was. -/
def recordValue (h : History) (name literal : String) : History × Bool :=
  let (h, id) := h.register name
  let values := ((h.tracked[id]?).map (·.values)).getD []
  if values.getLast? == some literal then (h, false)
  else
    -- the change says how long the history of the variable is from now on
    let tracked := h.tracked.modify id fun v => { v with values := v.values ++ [literal] }
    ({ h with tracked, changes := h.changes ++ [(id, values.length + 1)] }, true)

/-! ### Going back -/

/-- The last length that some changes give to the history of a variable. -/
def lastLength? (changes : List (Nat × Nat)) (id : Nat) : Option Nat :=
  (changes.reverse.find? fun c => c.1 == id).map (·.2)

/-- The literals of the variables after so many changes. A variable that had not changed by then is
left out. -/
def valuesAt (h : History) (changes : Nat) : List (String × String) :=
  h.tracked.zipIdx.filterMap fun (v, id) =>
    (lastLength? (h.changes.take changes) id).bind fun length =>
      (v.values[length - 1]?).map fun literal => (v.name, literal)

/-- The active assets after so many of their sets. -/
def assetsAt (h : History) (assets : Nat) : List String :=
  if assets = 0 then [] else h.assets.getD (assets - 1) []

/-- The greatest length that some changes give to the history of a variable. -/
def greatestLength (changes : List (Nat × Nat)) (id : Nat) : Nat :=
  (changes.filter fun c => c.1 == id).foldl (fun n c => max n c.2) 0

/-- Forget what was recorded after a moment. The history of a variable is cut to what the changes
left over speak of. -/
def truncate (h : History) (s : Snapshot) : History :=
  let changes := h.changes.take s.changes
  { queue := h.queue.take s.queue
    assets := h.assets.take s.assets
    tracked := h.tracked.mapIdx fun id v =>
      { v with values := v.values.take (greatestLength changes id) }
    changes }

/-! ### Putting together -/

/-- Take up a variable with its history, in the place of one of its name. -/
def putVariable (h : History) (v : Variable) : History :=
  let (h, id) := h.register v.name
  { h with tracked := h.tracked.modify id fun w => { w with values := v.values } }

/-- The history with some logs. -/
def ofLogs (queue : List String) (assets : List (List String)) (tracked : List Variable)
    (changes : List (Nat × Nat)) : History :=
  tracked.foldl putVariable { queue, assets, changes }

end History

end Gamebook
