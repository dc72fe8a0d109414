import Gamebook.Proofs.Play.Looking

/-!
# Guards

The script at the root of a verb is made of the conditions above it, joined by `&`. A chain is
evaluated from left to right, and evaluation ends where the answer is settled: behind a part that
does not hold at an `&`, behind one that does at an `|`. This is so for the joined script as well.
Hence an `|` in one condition, once the part in front of it holds, settles the whole guard, and the
conditions behind it are never asked.

The conditions are here scripts without calls, so that each of them has one answer on a stage,
wherever it is asked.
-/

namespace Gamebook

open Script

/-! ### Where evaluation ends -/

/-- Whether segments hold behind something that holds or not, by what each of them comes to. -/
def holdsFrom (truth : Segment → Bool) (v : Bool) : List (Connector × Segment) → Bool
  | [] => v
  | (connector, s) :: rest => if connector.goesOn v then holdsFrom truth (truth s) rest else v

/-- Whether an `|` among some segments ends their evaluation, since what is in front of it holds. -/
def SettledEarly (truth : Segment → Bool) (v : Bool) (segments : List (Connector × Segment)) :
    Prop :=
  ∃ front s back, segments = front ++ (.or, s) :: back ∧ holdsFrom truth v front = true

/-- Behind a first segment that is evaluated, evaluation is settled early if it is by the others. -/
theorem settledEarly_cons {truth : Segment → Bool} {v : Bool} {connector : Connector}
    (hgoes : connector.goesOn v = true) (s : Segment) (rest : List (Connector × Segment)) :
    SettledEarly truth v ((connector, s) :: rest) ↔ SettledEarly truth (truth s) rest := by
  constructor
  · rintro ⟨front, t, back, hsplit, hfront⟩
    cases front with
    | nil =>
      -- an `|` goes on behind nothing that holds
      rw [List.nil_append] at hsplit
      obtain ⟨hpart, -⟩ := List.cons.inj hsplit
      cases hpart
      rw [holdsFrom] at hfront
      rw [hfront] at hgoes
      cases hgoes
    | cons part front =>
      obtain ⟨rfl, rfl⟩ := List.cons.inj hsplit
      rw [holdsFrom, if_pos hgoes] at hfront
      exact ⟨front, t, back, rfl, hfront⟩
  · rintro ⟨front, t, back, rfl, hfront⟩
    refine ⟨(connector, s) :: front, t, back, rfl, ?_⟩
    rw [holdsFrom, if_pos hgoes]
    exact hfront

/-- Segments with further ones behind an `&` hold if they do and settle it early, or if they do and
so do the further ones. -/
theorem holdsFrom_append {truth : Segment → Bool} (segments : List (Connector × Segment))
    (s : Segment) (more : List (Connector × Segment)) :
    ∀ v : Bool, holdsFrom truth v (segments ++ (.and, s) :: more) = true ↔
      holdsFrom truth v segments = true ∧
        (SettledEarly truth v segments ∨ holdsFrom truth true ((.and, s) :: more) = true) := by
  induction segments with
  | nil =>
    intro v
    have hnever : ¬ SettledEarly truth v [] := by
      rintro ⟨front, t, back, hsplit, -⟩
      simp at hsplit
    cases v with
    | false => simp [holdsFrom, Connector.goesOn]
    | true => simp [holdsFrom, hnever]
  | cons part rest ih =>
    obtain ⟨connector, t⟩ := part
    intro v
    cases hgoes : connector.goesOn v with
    | true =>
      rw [List.cons_append, holdsFrom, if_pos hgoes, holdsFrom, if_pos hgoes,
        settledEarly_cons hgoes]
      exact ih (truth t)
    | false =>
      rw [List.cons_append, holdsFrom, hgoes, if_neg Bool.false_ne_true, holdsFrom, hgoes,
        if_neg Bool.false_ne_true]
      cases v with
      | false => simp
      | true =>
        -- only an `|` does not go on behind what holds
        have hor : connector = .or := by
          cases connector with
          | and => cases hgoes
          | or => rfl
        subst hor
        have hsettled : SettledEarly truth true ((.or, t) :: rest) := ⟨[], t, rest, rfl, rfl⟩
        simp [hsettled]

/-- Where a first element with some property stands behind others that have another one: at the head
of a list, or in its tail. -/
theorem exists_split_cons {α : Type} {P Q : α → Prop} {x : α} {xs : List α} :
    (∃ before t after, x :: xs = before ++ t :: after ∧ (∀ b ∈ before, P b) ∧ P t ∧ Q t) ↔
      P x ∧ (Q x ∨
        ∃ before t after, xs = before ++ t :: after ∧ (∀ b ∈ before, P b) ∧ P t ∧ Q t) := by
  constructor
  · rintro ⟨before, t, after, hsplit, hbefore, ht, hq⟩
    cases before with
    | nil =>
      obtain ⟨rfl, rfl⟩ := List.cons.inj hsplit
      exact ⟨ht, .inl hq⟩
    | cons b before =>
      obtain ⟨rfl, rfl⟩ := List.cons.inj hsplit
      obtain ⟨hb, hbefore⟩ := List.forall_mem_cons.mp hbefore
      exact ⟨hb, .inr ⟨before, t, after, rfl, hbefore, ht, hq⟩⟩
  · rintro ⟨hx, hq | ⟨before, t, after, rfl, hbefore, ht, hq⟩⟩
    · exact ⟨[], x, xs, rfl, by simp, hx, hq⟩
    · exact ⟨x :: before, t, after, rfl, List.forall_mem_cons.mpr ⟨hx, hbefore⟩, ht, hq⟩

/-! ### Evaluation of chains -/

section Eval

variable {σ : Type} (g : Setting σ) (verb : String → String → Run σ Bool) (noun : String)
  (s : Stage σ)

/-- Whether a segment holds on a stage. -/
def segmentHolds (p : Segment) : Bool :=
  ((evalSegment g verb noun p).run s).1.holds

/-- Segments that only look hold according to what each of them comes to on the same session. -/
theorem evalSegments_holds (segments : List (Connector × Segment))
    (hlooks : ∀ part ∈ segments, OnlyLooks (evalSegment g verb noun part.2)) :
    ∀ (v : Verdict) (t : Stage σ), t.session = s.session →
      ((evalSegments g verb noun v segments).run t).1.holds =
        holdsFrom (segmentHolds g verb noun s) v.holds segments := by
  induction segments with
  | nil => exact fun v t _ => rfl
  | cons part rest ih =>
    obtain ⟨connector, p⟩ := part
    intro v t ht
    have hfirst := hlooks (connector, p) List.mem_cons_self
    rw [evalSegments, holdsFrom]
    split
    · have hholds : ((evalSegment g verb noun p).run t).1.holds = segmentHolds g verb noun s p :=
        congrArg Verdict.holds (hfirst.answer_eq ht)
      rw [StateT.run_bind, ← hholds]
      -- the first segment leaves the session as it is for the others
      exact ih (fun part hpart => hlooks part (List.mem_cons_of_mem _ hpart)) _ _
        ((hfirst.session_eq t).trans ht)
    · rfl

/-- A chain that only looks holds according to what its segments come to. -/
theorem evalChain_holds {c : Chain}
    (hlooks : ∀ part ∈ c.segments, OnlyLooks (evalSegment g verb noun part.2)) {t : Stage σ}
    (ht : t.session = s.session) :
    ((evalChain g verb noun c).run t).1.holds =
      holdsFrom (segmentHolds g verb noun s) true c.segments := by
  have hfirst := hlooks (.and, c.first) List.mem_cons_self
  have hholds : ((evalSegment g verb noun c.first).run t).1.holds =
      segmentHolds g verb noun s c.first := congrArg Verdict.holds (hfirst.answer_eq ht)
  have hgoes : Connector.goesOn .and true = true := rfl
  rw [evalChain, StateT.run_bind, Chain.segments, holdsFrom, if_pos hgoes, ← hholds]
  exact evalSegments_holds g verb noun s c.rest
    (fun part hpart => hlooks part (List.mem_cons_of_mem _ hpart)) _ _
    ((hfirst.session_eq t).trans ht)

/-! ### Stored conditions on a stage -/

/-- Whether a stored script holds on a stage. -/
def Holds (script : String) : Prop :=
  ((evalScript g verb noun script).run s).1.holds = true

instance (script : String) : Decidable (Holds g verb noun s script) :=
  inferInstanceAs (Decidable (_ = true))

/-- Whether what is behind a stored script that holds is not evaluated: reading the script ends
before its end, or an `|` in it stands behind something that holds already. -/
def CutShort (script : String) : Prop :=
  ¬ ReadThrough script ∨
  ∃ front p back, (Chain.ofText script).1.rest = front ++ (.or, p) :: back ∧
    ((evalChain g verb noun ⟨(Chain.ofText script).1.first, front⟩).run s).1.holds = true

/-- Whether nothing is called in the conditions of a script. -/
def CallFree (script : String) : Prop :=
  ∀ part ∈ (Chain.ofText script).1.segments, part.2.callFree = true

instance (script : String) : Decidable (CallFree script) :=
  inferInstanceAs (Decidable (∀ part ∈ (Chain.ofText script).1.segments, part.2.callFree = true))

/-- The segments of a stored condition without calls only look. -/
theorem onlyLooks_segments {script : String} (h : StoredCondition script.toList)
    (hfree : CallFree script) :
    ∀ part ∈ (Chain.ofText script).1.segments, OnlyLooks (evalSegment g verb noun part.2) := by
  intro part hpart
  have hasks : part.2.asks = true := by
    rw [(ofText_segments h.opens).1] at hpart
    exact h.asks .and part hpart
  exact onlyLooks_evalSegment g verb noun part.2 hasks (hfree part hpart)

/-- A stored condition without calls holds if its segments do. -/
theorem holds_iff {script : String} (h : StoredCondition script.toList) (hfree : CallFree script) :
    Holds g verb noun s script ↔
      holdsFrom (segmentHolds g verb noun s) true (readSegments .and script.toList).1 = true := by
  have hread : (evalScript g verb noun script).run s =
      (evalChain g verb noun (Chain.ofText script).1).run
        ((readScript noun script : Run σ Chain).run s).2 := by
    rw [evalScript, isBlank_of_opens h.opens, if_neg Bool.false_ne_true, StateT.run_bind]
    rfl
  rw [Holds, hread, ← (ofText_segments h.opens).1,
    evalChain_holds g verb noun s (onlyLooks_segments g verb noun h hfree)
      ((onlyLooks_readScript noun script).session_eq s)]

/-- A stored condition without calls is cut short if reading or evaluating its segments is. -/
theorem cutShort_iff {script : String} (h : StoredCondition script.toList)
    (hfree : CallFree script) :
    CutShort g verb noun s script ↔
      (readSegments .and script.toList).2 = false ∨
      SettledEarly (segmentHolds g verb noun s) true (readSegments .and script.toList).1 := by
  have hlooks := onlyLooks_segments g verb noun h hfree
  obtain ⟨hsegments, hthrough⟩ := ofText_segments h.opens
  have hfront : ∀ front p back, (Chain.ofText script).1.rest = front ++ (.or, p) :: back →
      ((evalChain g verb noun ⟨(Chain.ofText script).1.first, front⟩).run s).1.holds =
        holdsFrom (segmentHolds g verb noun s) true
          ((.and, (Chain.ofText script).1.first) :: front) := by
    intro front p back hrest
    refine evalChain_holds g verb noun s (fun part hpart => hlooks part ?_) rfl
    rw [Chain.segments, hrest, ← List.cons_append]
    exact List.mem_append_left _ hpart
  rw [CutShort, hthrough, Bool.not_eq_true, ← hsegments]
  refine or_congr_right ⟨?_, ?_⟩
  · rintro ⟨front, p, back, hrest, hholds⟩
    refine ⟨(.and, (Chain.ofText script).1.first) :: front, p, back, ?_, ?_⟩
    · rw [Chain.segments, hrest, List.cons_append]
    · rw [← hfront front p back hrest]
      exact hholds
  · rintro ⟨front, p, back, hsplit, hholds⟩
    rw [Chain.segments] at hsplit
    cases front with
    | nil => cases (List.cons.inj hsplit).1
    | cons part front =>
      obtain ⟨rfl, hrest⟩ := List.cons.inj hsplit
      exact ⟨front, p, back, hrest, (hfront front p back hrest).trans hholds⟩

/-! ### Joined conditions on a stage -/

/-- Nothing is called in conditions that are joined if nothing is called in each of them. -/
theorem callFree_foldChains {script next : String} {rest : List String}
    (hall : ∀ t ∈ script :: next :: rest, StoredCondition t.toList)
    (hfirst : CallFree script) (hrest : CallFree (foldChains (next :: rest))) :
    CallFree (foldChains (script :: next :: rest)) := by
  have hstored := storedCondition_foldChains hall
  have hstored' := storedCondition_foldChains fun t ht => hall t (List.mem_cons_of_mem _ ht)
  intro part hpart
  rw [(ofText_segments hstored.opens).1, readSegments_foldChains hall] at hpart
  rw [CallFree, (ofText_segments (hall script List.mem_cons_self).opens).1] at hfirst
  rw [CallFree, (ofText_segments hstored'.opens).1] at hrest
  split at hpart
  · rcases List.mem_append.mp hpart with hpart | hpart
    · exact hfirst part hpart
    · exact hrest part hpart
  · exact hfirst part hpart

/-- Nothing is called in conditions that are joined if nothing is called in any of them. -/
theorem callFree_foldChains_of_all {script : String} {rest : List String}
    (hall : ∀ t ∈ script :: rest, StoredCondition t.toList)
    (hfree : ∀ t ∈ script :: rest, CallFree t) : CallFree (foldChains (script :: rest)) := by
  induction rest generalizing script with
  | nil =>
    rw [foldChains_eq hall, String.intercalate_singleton]
    exact hfree script List.mem_cons_self
  | cons next rest ih =>
    exact callFree_foldChains hall (hfree script List.mem_cons_self)
      (ih (fun t ht => hall t (List.mem_cons_of_mem _ ht))
        fun t ht => hfree t (List.mem_cons_of_mem _ ht))

/-- Joined conditions hold if the first of them does and the others do, or the first one does and is
cut short. -/
theorem holds_foldChains_cons {script next : String} {rest : List String}
    (hall : ∀ t ∈ script :: next :: rest, StoredCondition t.toList)
    (hfree : ∀ t ∈ script :: next :: rest, CallFree t) :
    Holds g verb noun s (foldChains (script :: next :: rest)) ↔
      Holds g verb noun s script ∧
        (CutShort g verb noun s script ∨ Holds g verb noun s (foldChains (next :: rest))) := by
  have hfirst := hall script List.mem_cons_self
  have hfreeFirst := hfree script List.mem_cons_self
  have hothers : ∀ t ∈ next :: rest, StoredCondition t.toList :=
    fun t ht => hall t (List.mem_cons_of_mem _ ht)
  have hfreeOthers := callFree_foldChains_of_all hothers
    fun t ht => hfree t (List.mem_cons_of_mem _ ht)
  rw [holds_iff g verb noun s (storedCondition_foldChains hall)
      (callFree_foldChains_of_all hall hfree),
    holds_iff g verb noun s hfirst hfreeFirst, cutShort_iff g verb noun s hfirst hfreeFirst,
    holds_iff g verb noun s (storedCondition_foldChains hothers) hfreeOthers,
    readSegments_foldChains hall]
  cases hthrough : (readSegments .and script.toList).2 with
  | false => simp
  | true =>
    -- the segments of the others stand behind the `&` that joins them to the first condition
    obtain ⟨p, more, hmore⟩ := readSegments_head .and (foldChains (next :: rest)).toList
    rw [if_pos rfl, hmore, holdsFrom_append]
    simp

/-- Joined conditions hold if all of them do, or if some of them, from the first one on, do and the
last of these is cut short. -/
theorem holds_foldChains {scripts : List String}
    (hall : ∀ t ∈ scripts, StoredCondition t.toList) (hfree : ∀ t ∈ scripts, CallFree t) :
    Holds g verb noun s (foldChains scripts) ↔
      (∀ t ∈ scripts, Holds g verb noun s t) ∨
      ∃ before t after, scripts = before ++ t :: after ∧
        (∀ b ∈ before, Holds g verb noun s b) ∧ Holds g verb noun s t ∧
        CutShort g verb noun s t := by
  induction scripts with
  | nil => exact iff_of_true rfl (.inl (by simp))
  | cons script scripts ih =>
    cases scripts with
    | nil =>
      rw [foldChains_eq hall, String.intercalate_singleton, exists_split_cons]
      simp +contextual
    | cons next rest =>
      rw [holds_foldChains_cons g verb noun s hall hfree,
        ih (fun t ht => hall t (List.mem_cons_of_mem _ ht))
          fun t ht => hfree t (List.mem_cons_of_mem _ ht),
        exists_split_cons (x := script), List.forall_mem_cons (a := script), ← and_or_left,
        or_left_comm]

/-- Joined conditions are a conjunction just as long as none that holds, with all in front of it, is
cut short in front of one that does not. -/
theorem holds_foldChains_iff_forall {scripts : List String}
    (hall : ∀ t ∈ scripts, StoredCondition t.toList) (hfree : ∀ t ∈ scripts, CallFree t) :
    (Holds g verb noun s (foldChains scripts) ↔ ∀ t ∈ scripts, Holds g verb noun s t) ↔
      ∀ before t after, scripts = before ++ t :: after →
        (∀ b ∈ before, Holds g verb noun s b) → Holds g verb noun s t →
        CutShort g verb noun s t → ∀ a ∈ after, Holds g verb noun s a := by
  rw [holds_foldChains g verb noun s hall hfree]
  constructor
  · intro h before t after hsplit hbefore ht hcut a ha
    refine h.mp (.inr ⟨before, t, after, hsplit, hbefore, ht, hcut⟩) a ?_
    rw [hsplit]
    exact List.mem_append_right _ (List.mem_cons_of_mem _ ha)
  · refine fun h => ⟨?_, .inl⟩
    rintro (hholds | ⟨before, t, after, rfl, hbefore, ht, hcut⟩)
    · exact hholds
    · intro c hc
      rcases List.mem_append.mp hc with hc | hc
      · exact hbefore c hc
      · rcases List.mem_cons.mp hc with rfl | hc
        · exact ht
        · exact h before t after rfl hbefore ht hcut c hc

end Eval

end Gamebook
