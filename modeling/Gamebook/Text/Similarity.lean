import Gamebook.Text.Lower

/-!
# Similar names

How much two names resemble each other, by the measure of Jaro and Winkler: it counts the
characters that the names share at about the same place, takes off for those that are out of order,
and adds for a common beginning. The measure is 1 for equal names and 0 for names that share
nothing.
-/

namespace Gamebook.Text

/-- The first place of `bs` at which `c` stands, which is not taken, and which lies within `range`
of the place `i`. -/
def matchingPlace? (range i : Nat) (c : Char) (bs : List Char) (taken : List Bool) : Option Nat :=
  (List.range bs.length).find? fun j =>
    i ≤ j + range && j ≤ i + range && !taken.getD j true && bs[j]? == some c

/-- The characters of `as`, whose first one stands at place `i`, that find a partner in `bs`, and
the places taken there in the end. -/
def matchUp (range : Nat) (bs : List Char) (i : Nat) (taken : List Bool) :
    List Char → List Char × List Bool
  | [] => ([], taken)
  | a :: as => match matchingPlace? range i a bs taken with
    | none => matchUp range bs (i + 1) taken as
    | some j =>
      let (matched, taken) := matchUp range bs (i + 1) (taken.set j true) as
      (a :: matched, taken)

/-- The measure without a bonus for the beginning. -/
def jaro (as bs : List Char) : Float :=
  if as.isEmpty && bs.isEmpty then 1
  else
    let range := max as.length bs.length / 2 - 1
    let (matched, taken) := matchUp range bs 0 (bs.map fun _ => false) as
    if matched.isEmpty then 0
    else
      let partners := (bs.zip taken).filterMap fun (b, used) => if used then some b else none
      let swapped := ((matched.zip partners).filter fun (a, b) => a != b).length / 2
      let m := Float.ofNat matched.length
      (m / Float.ofNat as.length + m / Float.ofNat bs.length +
        Float.ofNat (matched.length - swapped) / m) / 3

/-- The measure with a bonus for up to four equal characters at the beginning. -/
def jaroWinkler (as bs : List Char) : Float :=
  let base := jaro as bs
  if base > 0.7 then
    let common := ((as.take 4).zip bs).takeWhile fun (a, b) => a == b
    base + 0.1 * Float.ofNat common.length * (1 - base)
  else base

/-- The candidate that resembles a name most, whatever the case of the letters, if it does so well
enough. Of several equally good ones the last is taken. -/
def suggest? (candidates : List String) (name : String) : Option String :=
  let wanted := lower name.toList
  let better (best : Option (String × Float)) (candidate : String) : Option (String × Float) :=
    let score := jaroWinkler wanted (lower candidate.toList)
    if score < 0.8 then best
    else match best with
      | some (_, top) => if score < top then best else some (candidate, score)
      | none => some (candidate, score)
  (candidates.foldl better none).map (·.1)

end Gamebook.Text
