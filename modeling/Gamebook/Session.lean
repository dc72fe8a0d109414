import Gamebook.Session.History
import Gamebook.SortedMap
import Gamebook.Text.Space
import Gamebook.Value.Literal

/-!
# Sessions

A session is one play-through of a story: the values that nouns took other than the story's own,
the assets that are switched on, and the history through which a player can step back and forth. It
never needs to know the values that the story gives.

After each action the session takes a snapshot. Stepping back restores what a snapshot says and
keeps the later ones; an action from there first discards them.
-/

namespace Gamebook

/-- One play-through. -/
structure Session where
  name : String
  /-- The values that differ from the story's, by noun. -/
  values : SortedMap String Value := {}
  /-- The assets that are switched on. -/
  assets : SortedMap String Unit := {}
  history : History := {}
  /-- A snapshot for each action, after the one for the start of the story. -/
  snapshots : List Snapshot := [.start]
  /-- The position among the snapshots. -/
  current : Nat := 0
  /-- Descriptions of some actions, by their position in the queue. -/
  bookmarks : SortedMap Nat String := {}
  /-- The action that the next snapshot is for. -/
  pending : Option String := none
  deriving DecidableEq, Repr

namespace Session

/-! ### Names -/

/-- The name of a session that was given none. -/
def defaultName : String := "untitled"

/-- The session at the start of the story. A name is kept on one line. -/
def named (name : String) : Session :=
  { name := Text.oneLine name }

/-- The session without a name at the start of the story. -/
def fresh : Session :=
  { name := defaultName }

instance : Inhabited Session := ⟨fresh⟩

/-- Give the session another name. -/
def rename (s : Session) (name : String) : Session :=
  { s with name := Text.oneLine name }

/-- Forget all but the name. -/
def reset (s : Session) : Session :=
  { name := s.name }

/-! ### Values -/

/-- The value of a noun, if it is not the story's. -/
def value? (s : Session) (noun : String) : Option Value :=
  s.values.get? noun

/-- The value of a noun that may be changed: its own, or else a clean copy of a default. -/
def ownValue (s : Session) (noun : String) (default : Value) : Value :=
  (s.value? noun).getD default.clearDirty

/-- Give a noun a value of its own, and change it. -/
def modifyValue (s : Session) (noun : String) (default : Value) (change : Value → Value × Bool) :
    Session × Bool :=
  let (v, changed) := change (s.ownValue noun default)
  ({ s with values := s.values.insert noun v }, changed)

/-- Put a value in the place of a noun's. -/
def setValue (s : Session) (noun : String) (v : Value) : Session :=
  { s with values := s.values.insert noun v.markDirty }

/-! ### Assets -/

/-- Switch an asset on or off. -/
def setAsset (s : Session) (asset : String) (on : Bool) : Session :=
  { s with assets := if on then s.assets.insert asset () else s.assets.erase asset }

/-- Whether an asset is switched on. -/
def assetActive (s : Session) (asset : String) : Bool :=
  s.assets.contains asset

/-- The assets that are switched on, sorted. -/
def activeAssets (s : Session) : List String :=
  s.assets.keys

/-! ### Snapshots -/

/-- Say which action the next snapshot is for. -/
def setAction (s : Session) (noun verb : String) : Session :=
  { s with pending := some s!"{noun}:{verb}" }

/-- Whether the session stands at its newest snapshot. -/
def isAtTip (s : Session) : Bool :=
  s.current + 1 == s.snapshots.length

/-- A snapshot of the session. -/
def snapshot (s : Session) (index : Nat) : Snapshot :=
  s.snapshots.getD index .start

/-- Record the values that changed, in the order of their nouns. -/
def recordValues (h : History) (values : List (String × Value)) : History :=
  values.foldl (fun h (noun, v) => if v.dirty then (h.recordValue noun v.literal).1 else h) h

/-- Take a snapshot after the action at hand, and stand at it. If there is a later snapshot already,
the session only moves on to the next one. -/
def createSnapshot (s : Session) : Session :=
  let values := s.values.mapValues .clearDirty
  if s.isAtTip then
    let h := (s.history.recordAction (s.pending.getD "")).recordAssets s.activeAssets
    let history := recordValues h.1 s.values.entries
    { s with
      values, history
      snapshots := s.snapshots ++ [history.tip]
      current := s.snapshots.length
      pending := none }
  else
    -- after steps back the snapshot to move to is there already
    { s with values, current := s.current + 1, pending := none }

/-- Take values and assets from a snapshot. -/
def restore (s : Session) (index : Nat) : Session :=
  let at' := s.snapshot index
  { s with
    values := .ofList ((s.history.valuesAt at'.changes).map fun (noun, literal) =>
      (noun, Value.ofLiteral literal))
    assets := .ofList ((s.history.assetsAt at'.assets).map fun asset => (asset, ()))
    pending := none }

/-- Go to a snapshot other than the start of the story. -/
def loadSnapshot? (s : Session) (index : Nat) : Option Session :=
  if index = 0 ∨ s.snapshots.length ≤ index then none
  else some { s.restore index with current := index }

/-- Step back by one action. -/
def undo? (s : Session) : Option Session :=
  match s.current with
  | 0 => none
  | 1 => some { s with values := {}, assets := {}, pending := none, current := 0 }
  | n + 2 => s.loadSnapshot? (n + 1)

/-- Step forward by one action. -/
def redo? (s : Session) : Option Session :=
  s.loadSnapshot? (s.current + 1)

/-- Discard what comes after the snapshot at hand. -/
def trim (s : Session) : Session :=
  if s.isAtTip then s
  else
    let point := s.snapshot s.current
    { s with
      snapshots := s.snapshots.take (s.current + 1)
      history := s.history.truncate point
      bookmarks := s.bookmarks.filterKeys fun queue => queue < point.queue }

/-- The action that led to a snapshot. -/
def snapshotAction? (s : Session) (index : Nat) : Option String :=
  (s.snapshots[index]?).bind fun snapshot =>
    if snapshot.queue = 0 then none else s.history.queue[snapshot.queue - 1]?

/-- The snapshot taken right after an action of the queue. -/
def snapshotForQueue? (s : Session) (queue : Nat) : Option Nat :=
  s.snapshots.findIdx? fun snapshot => snapshot.queue == queue + 1

/-! ### Bookmarks -/

/-- What a bookmark says: the description on one line, or the action if there is none to see. -/
def bookmarkText (description : Option String) (entry : String) : String :=
  Text.oneLine ((description.filter fun d => !Text.isBlank d.toList).getD entry)

/-- Put a bookmark on an action of the queue. -/
def addBookmarkAt? (s : Session) (queue : Nat) (description : Option String) : Option Session :=
  (s.history.queue[queue]?).map fun entry =>
    { s with bookmarks := s.bookmarks.insert queue (bookmarkText description entry) }

/-- Put a bookmark on the action that led to the snapshot at hand; its position in the queue comes
with the new session. -/
def addBookmark? (s : Session) (description : Option String) : Option (Session × Nat) :=
  match (s.snapshot s.current).queue with
  | 0 => none
  | queue + 1 => (s.addBookmarkAt? queue description).map fun s => (s, queue)

/-! ### Putting together -/

/-- The session with some logs, at its newest snapshot. -/
def ofLogs (name : String) (history : History) (snapshots : List Snapshot)
    (bookmarks : SortedMap Nat String) : Session :=
  let s : Session :=
    { name, history, bookmarks, snapshots := .start :: snapshots, current := snapshots.length }
  s.restore s.current

end Session

end Gamebook
