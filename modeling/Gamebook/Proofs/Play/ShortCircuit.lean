import Gamebook.Proofs.Play.Effects

/-!
# Chains as nested expressions

A chain is evaluated in a loop that stops as soon as a connector does not go on. The same is meant
by the chain bracketed to the right, `s₀ & (s₁ | (s₂ & s₃))`, where `&` evaluates what is behind it
only if the segment in front holds, and `|` only if it does not. `Nested.Evaluates` are the rules of
such an expression, one for each way in which a segment decides or passes on; a segment is evaluated
on the stage that the one in front of it has left, and the segments evaluated are listed.

The loop follows these rules (`evalChain_nested`): it comes to the same answer on the same stage,
asks for the most breaks of the segments evaluated, and never looks at a segment behind these.
-/

namespace Gamebook

open Script

/-! ### Bracketing -/

namespace Script

/-- A chain bracketed to the right. -/
inductive Nested where
  | segment (p : Segment)
  /-- `p & (...)` -/
  | and (p : Segment) (behind : Nested)
  /-- `p | (...)` -/
  | or (p : Segment) (behind : Nested)
  deriving DecidableEq, Repr

/-- Bracket a segment with those behind it. -/
def Nested.ofSegments (p : Segment) : List (Connector × Segment) → Nested
  | [] => .segment p
  | (.and, q) :: rest => .and p (ofSegments q rest)
  | (.or, q) :: rest => .or p (ofSegments q rest)

/-- Bracket a chain. -/
def Chain.nested (c : Chain) : Nested :=
  .ofSegments c.first c.rest

/-- The breaks behind an instruction; nothing else has any. -/
def Segment.breaks : Segment → Nat
  | .instruction i => i.breaks
  | _ => 0

/-- The most breaks behind any of some segments. -/
def mostBreaks (ps : List Segment) : Nat :=
  (ps.map Segment.breaks).foldr max 0

end Script

variable {σ : Type} (g : Setting σ) (verb : String → String → Run σ Bool) (noun : String)

/-! ### The rules -/

/-- Evaluate a single segment: a condition is asked, an instruction is carried out and holds, and
what could not be read does not hold. -/
def segmentTruth : Segment → Run σ Bool
  | .condition c => evalCondition g verb noun c
  | .instruction ⟨some a, _⟩ => do
    runAction g verb noun a
    return true
  | .instruction ⟨none, _⟩ => return true
  | .invalid => return false

/-- The evaluation of a nested chain on a stage: whether it holds, the segments that are evaluated,
and the stage that is left. -/
inductive Script.Nested.Evaluates :
    Nested → Stage σ → Bool → List Segment → Stage σ → Prop
  | segment {p : Segment} {s t : Stage σ} {holds : Bool}
      (hp : (segmentTruth g verb noun p).run s = (holds, t)) :
      Evaluates (.segment p) s holds [p] t
  /-- An `&` goes on behind what holds. -/
  | andOn {p : Segment} {behind : Nested} {s t u : Stage σ} {holds : Bool} {ps : List Segment}
      (hp : (segmentTruth g verb noun p).run s = (true, t))
      (hbehind : Evaluates behind t holds ps u) : Evaluates (.and p behind) s holds (p :: ps) u
  /-- An `&` ends behind what does not hold. -/
  | andEnd {p : Segment} {behind : Nested} {s t : Stage σ}
      (hp : (segmentTruth g verb noun p).run s = (false, t)) :
      Evaluates (.and p behind) s false [p] t
  /-- An `|` ends behind what holds. -/
  | orEnd {p : Segment} {behind : Nested} {s t : Stage σ}
      (hp : (segmentTruth g verb noun p).run s = (true, t)) :
      Evaluates (.or p behind) s true [p] t
  /-- An `|` goes on behind what does not hold. -/
  | orOn {p : Segment} {behind : Nested} {s t u : Stage σ} {holds : Bool} {ps : List Segment}
      (hp : (segmentTruth g verb noun p).run s = (false, t))
      (hbehind : Evaluates behind t holds ps u) : Evaluates (.or p behind) s holds (p :: ps) u

variable {g verb noun}

/-- The rules leave no choice. -/
theorem Script.Nested.Evaluates.unique {c : Nested} {s t t' : Stage σ} {holds holds' : Bool}
    {ps ps' : List Segment} (h : c.Evaluates g verb noun s holds ps t)
    (h' : c.Evaluates g verb noun s holds' ps' t') : holds' = holds ∧ ps' = ps ∧ t' = t := by
  induction h generalizing holds' ps' t' with
  | segment hp =>
    cases h' with
    | segment hp' =>
      cases hp.symm.trans hp'
      exact ⟨rfl, rfl, rfl⟩
  | andOn hp _ ih =>
    cases h' with
    | andOn hp' hbehind' =>
      cases hp.symm.trans hp'
      obtain ⟨rfl, rfl, rfl⟩ := ih hbehind'
      exact ⟨rfl, rfl, rfl⟩
    | andEnd hp' => cases hp.symm.trans hp'
  | andEnd hp =>
    cases h' with
    | andOn hp' => cases hp.symm.trans hp'
    | andEnd hp' =>
      cases hp.symm.trans hp'
      exact ⟨rfl, rfl, rfl⟩
  | orEnd hp =>
    cases h' with
    | orEnd hp' =>
      cases hp.symm.trans hp'
      exact ⟨rfl, rfl, rfl⟩
    | orOn hp' => cases hp.symm.trans hp'
  | orOn hp _ ih =>
    cases h' with
    | orEnd hp' => cases hp.symm.trans hp'
    | orOn hp' hbehind' =>
      cases hp.symm.trans hp'
      obtain ⟨rfl, rfl, rfl⟩ := ih hbehind'
      exact ⟨rfl, rfl, rfl⟩

/-! ### The loop -/

variable (g verb noun)

/-- The verdict on a segment is its truth, with its breaks. -/
theorem evalSegment_eq (p : Segment) (s : Stage σ) :
    (evalSegment g verb noun p).run s =
      (⟨((segmentTruth g verb noun p).run s).1, p.breaks⟩,
        ((segmentTruth g verb noun p).run s).2) := by
  cases p with
  | condition c => rfl
  | instruction i =>
    obtain ⟨action, breaks⟩ := i
    cases action with
    | none => rfl
    | some a => rfl
  | invalid => rfl

/-- The breaks collected so far are raised by those behind, and matter to nothing else. -/
theorem evalSegments_breaks (rest : List (Connector × Segment)) (holds : Bool) (m n : Nat)
    (s : Stage σ) :
    (evalSegments g verb noun ⟨holds, max m n⟩ rest).run s =
      (⟨((evalSegments g verb noun ⟨holds, n⟩ rest).run s).1.holds,
          max m ((evalSegments g verb noun ⟨holds, n⟩ rest).run s).1.breaks⟩,
        ((evalSegments g verb noun ⟨holds, n⟩ rest).run s).2) := by
  induction rest generalizing holds n s with
  | nil => rfl
  | cons part rest ih =>
    rw [evalSegments, evalSegments]
    split
    · rw [Run.run_bind, Run.run_bind, max_assoc]
      exact ih _ _ _
    · rfl

/-- A chain with a segment more in front: the chain behind is evaluated on the stage that the
segment leaves, if the connector goes on. -/
theorem evalChain_cons (p q : Segment) (k : Connector) (rest : List (Connector × Segment))
    (s : Stage σ) :
    let first := (segmentTruth g verb noun p).run s
    let behind := (evalChain g verb noun ⟨q, rest⟩).run first.2
    (evalChain g verb noun ⟨p, (k, q) :: rest⟩).run s =
      if k.goesOn first.1 then (⟨behind.1.holds, max p.breaks behind.1.breaks⟩, behind.2)
      else (⟨first.1, p.breaks⟩, first.2) := by
  intro first behind
  have hfirst : (evalSegment g verb noun p).run s = (⟨first.1, p.breaks⟩, first.2) :=
    evalSegment_eq g verb noun p s
  rw [evalChain, Run.run_bind, hfirst, evalSegments]
  dsimp only
  split
  · rw [Run.run_bind]
    exact evalSegments_breaks g verb noun rest _ p.breaks _ _
  · rfl

/-- Whether two rows of segments are the same up to a position, and the second one goes on from
there with the connector of the first one, if at all. -/
def AgreesTo (n : Nat) (rest rest' : List (Connector × Segment)) : Prop :=
  rest'.take n = rest.take n ∧ ∀ part ∈ rest'[n]?, ∃ part₀ ∈ rest[n]?, part.1 = part₀.1

theorem agreesTo_cons {n : Nat} {part : Connector × Segment}
    {rest rest' : List (Connector × Segment)} (h : AgreesTo (n + 1) (part :: rest) rest') :
    ∃ behind, rest' = part :: behind ∧ AgreesTo n rest behind := by
  obtain ⟨htake, hnext⟩ := h
  cases rest' with
  | nil => cases htake
  | cons part' behind =>
    rw [List.take_succ_cons, List.take_succ_cons] at htake
    obtain ⟨rfl, hbehind⟩ := List.cons.inj htake
    exact ⟨behind, rfl, hbehind, hnext⟩

theorem mostBreaks_singleton (p : Segment) : mostBreaks [p] = p.breaks :=
  Nat.max_zero _

/-- A chain is evaluated by the rules: some of its segments from the first one on, and whatever else
stands behind the connector that ends the evaluation, the run is the same. -/
theorem evaluates_evalChain (p : Segment) (rest : List (Connector × Segment)) (s : Stage σ) :
    ∃ n v t, n ≤ rest.length ∧
      (Nested.ofSegments p rest).Evaluates g verb noun s v.holds
        (p :: (rest.take n).map (·.2)) t ∧
      v.breaks = mostBreaks (p :: (rest.take n).map (·.2)) ∧
      ∀ rest', AgreesTo n rest rest' →
        (evalChain g verb noun ⟨p, rest'⟩).run s = (v, t) := by
  induction rest generalizing p s with
  | nil =>
    refine ⟨0, ⟨((segmentTruth g verb noun p).run s).1, p.breaks⟩,
      ((segmentTruth g verb noun p).run s).2, Nat.le_refl 0, .segment rfl,
      (mostBreaks_singleton p).symm, ?_⟩
    intro rest' hagree
    cases rest' with
    | nil => exact evalSegment_eq g verb noun p s
    | cons part rest' =>
      obtain ⟨part₀, hpart₀, -⟩ := hagree.2 part rfl
      cases hpart₀
  | cons part rest ih =>
    obtain ⟨k, q⟩ := part
    obtain ⟨holds, t, hp⟩ : ∃ holds t, (segmentTruth g verb noun p).run s = (holds, t) :=
      ⟨_, _, rfl⟩
    by_cases hgoes : k.goesOn holds = true
    · obtain ⟨n, v, u, hn, hrules, hbreaks, hagree⟩ := ih q t
      refine ⟨n + 1, ⟨v.holds, max p.breaks v.breaks⟩, u, Nat.succ_le_succ hn, ?_, ?_, ?_⟩
      · cases k with
        | and =>
          obtain rfl : holds = true := hgoes
          exact .andOn hp hrules
        | or =>
          obtain rfl : holds = false := by simpa [Connector.goesOn] using hgoes
          exact .orOn hp hrules
      · rw [hbreaks]
        rfl
      · intro rest' h
        obtain ⟨behind, rfl, hbehind⟩ := agreesTo_cons h
        rw [evalChain_cons, hp]
        dsimp only
        rw [if_pos hgoes, hagree behind hbehind]
    · refine ⟨0, ⟨holds, p.breaks⟩, t, Nat.zero_le _, ?_, (mostBreaks_singleton p).symm, ?_⟩
      · cases k with
        | and =>
          obtain rfl : holds = false := by simpa [Connector.goesOn] using hgoes
          exact .andEnd hp
        | or =>
          obtain rfl : holds = true := by simpa [Connector.goesOn] using hgoes
          exact .orEnd hp
      · intro rest' h
        cases rest' with
        | nil =>
          refine (evalSegment_eq g verb noun p s).trans ?_
          rw [hp]
        | cons part' rest' =>
          -- the connector is the same, so it ends the evaluation here as well
          obtain ⟨part₀, hpart₀, hconnector⟩ := h.2 part' rfl
          cases hpart₀
          obtain ⟨k', q'⟩ := part'
          obtain rfl : k' = k := hconnector
          rw [evalChain_cons, hp]
          dsimp only
          rw [if_neg hgoes]

/-- A chain is evaluated like an expression that is bracketed to the right: some of its segments
from the first one on are evaluated, each on the stage that the one in front has left, as the rules
say and in no other way; the verdict asks for the most breaks of these; and whatever else stands
behind the connector that ends the evaluation, the run is the same. -/
theorem evalChain_nested (c : Chain) (s : Stage σ) :
    ∃ n v t, n ≤ c.rest.length ∧ (evalChain g verb noun c).run s = (v, t) ∧
      let evaluated := c.first :: (c.rest.take n).map (·.2)
      (∀ holds ps u, c.nested.Evaluates g verb noun s holds ps u ↔
        holds = v.holds ∧ ps = evaluated ∧ u = t) ∧
      v.breaks = mostBreaks evaluated ∧
      ∀ rest, AgreesTo n c.rest rest →
        (evalChain g verb noun ⟨c.first, rest⟩).run s = (v, t) := by
  obtain ⟨n, v, t, hn, hrules, hbreaks, hagree⟩ :=
    evaluates_evalChain g verb noun c.first c.rest s
  refine ⟨n, v, t, hn, hagree c.rest ⟨rfl, fun part hpart => ⟨part, hpart, rfl⟩⟩, ?_, hbreaks,
    hagree⟩
  intro holds ps u
  constructor
  · exact fun h => hrules.unique h
  · rintro ⟨rfl, rfl, rfl⟩
    exact hrules

end Gamebook
