import Gamebook.Proofs.Script.Authored
import Gamebook.Proofs.Script.Results

/-!
# Scripts without errors

A parser that fails has something to report (`explains_condition`, `explains_action`): of several
alternatives the first one tells already why it does not fit. So a script in which no error is
reported has no invalid segment either, and the other way round (`clean_iff`); and stored conditions
without errors are folded into a script without errors (`clean_foldChains`).

There is one parser that fails in silence, the one for expressions of depth zero. No failure is left
to it alone.
-/

namespace Gamebook.Script

namespace Parser

variable {α β : Type} {p q : Parser α}

/-! ### Failures are reported -/

/-- Whether a parser that fails always reports something. -/
def Explains (p : Parser α) : Prop :=
  ∀ ts, (p ts).result = none → (p ts).report ≠ none

/-- What has been reported stays reported, whatever is merged with it. -/
theorem mergeReports_left {a : Option Report} (h : a ≠ none) (b : Option Report) :
    mergeReports a b ≠ none := by
  cases a with
  | none => exact absurd rfl h
  | some a => cases b <;> exact Option.some_ne_none _

theorem mergeReports_right (a : Option Report) {b : Option Report} (h : b ≠ none) :
    mergeReports a b ≠ none := by
  cases b with
  | none => exact absurd rfl h
  | some b => cases a <;> exact Option.some_ne_none _

namespace Explains

/-- A parser that never fails. -/
theorem of_some (h : ∀ ts, (p ts).result ≠ none) : p.Explains :=
  fun ts hnone => absurd hnone (h ts)

theorem pure (a : α) : Explains (Pure.pure a) :=
  of_some fun _ => Option.some_ne_none _

/-- A failure comes from the first parser, or from the second one with what the first has
reported. -/
theorem bind {f : α → Parser β} (hp : p.Explains) (hf : ∀ a, (f a).Explains) :
    Explains (p >>= f) := by
  intro ts hnone
  have hrun : (p >>= f) ts = Parser.bind p f ts := rfl
  rw [hrun, Parser.bind] at hnone ⊢
  split
  next hread =>
    have hreport := hp ts (by rw [hread])
    rwa [hread] at hreport
  next a rest report hread =>
    rw [hread] at hnone
    exact mergeReports_right _ (hf a rest hnone)

/-- A token that will not do, or one that is missing, is reported with what was expected. -/
theorem satisfy (es : List Expectation) (meaning : Token → Option α) :
    (Parser.satisfy es meaning).Explains := by
  intro ts hnone
  match ts, hnone with
  | [], _ => exact Option.some_ne_none _
  | t :: rest, hnone =>
    rw [Parser.satisfy] at hnone ⊢
    split
    next ha =>
      rw [ha] at hnone
      cases hnone
    next => exact Option.some_ne_none _

/-- A token that is left over is reported. -/
theorem endOfInput : Parser.endOfInput.Explains := by
  intro ts hnone
  rw [Parser.endOfInput] at hnone ⊢
  split
  next hempty =>
    rw [if_pos hempty] at hnone
    cases hnone
  next => exact Option.some_ne_none _

/-- Whatever the second alternative has to say, the first one was asked before. -/
theorem orElse (hp : p.Explains) : (Parser.orElse p q).Explains := by
  intro ts hnone
  have hfirst := hp ts
  rw [Parser.orElse] at hnone ⊢
  split
  next hread =>
    rw [hread] at hnone
    cases hnone
  next hread =>
    rw [hread] at hfirst
    exact mergeReports_left (hfirst rfl) _

/-- What is optional never fails. -/
theorem optional : (Parser.optional p).Explains := by
  refine of_some fun ts hnone => ?_
  rw [Parser.optional, result_orElse, Option.or_eq_none_iff] at hnone
  cases hnone.2

end Explains

/-- A condition that fails does so in its second alternative, but the first one has been
reported. -/
theorem explains_condition : condition.Explains :=
  .bind (.orElse (.bind .optional fun _ => .bind (.satisfy _ _) fun _ => .bind .optional fun _ =>
    .pure _)) fun _ => .bind .endOfInput fun _ => .pure _

/-- The same holds of actions. -/
theorem explains_action : action.Explains :=
  .bind (.orElse (.bind .optional fun _ => .bind (.satisfy _ _) fun _ => .bind .optional fun _ =>
    .pure _)) fun _ => .bind .endOfInput fun _ => .pure _

end Parser

/-! ### Segments -/

/-- A text that cannot be read has an error. -/
theorem parseAll_ne_nil {α : Type} {p : Parser α} (hp : p.Explains) (cs : List Char) :
    parseAll p cs ≠ .error [] := by
  rw [parseAll]
  dsimp only
  split
  next => simp
  next =>
    split
    next => simp
    next hread =>
      have hreport := hp _ hread
      cases hfound : (p (tokensOf (lexemes cs))).report with
      | none => exact absurd hfound hreport
      | some r => simp

/-- What stands between brackets and cannot be read has an error. -/
theorem Segment.ofText_ne_nil (body : List Char) : Segment.ofText body ≠ .error [] := by
  intro h
  cases Segment.unread_of_ofText h with
  | condition hcondition => exact parseAll_ne_nil Parser.explains_condition _ hcondition
  | instruction haction => exact parseAll_ne_nil Parser.explains_action _ haction

/-- What is read between brackets is never taken for something that could not be read. -/
theorem Segment.ofText_ne_invalid {body : List Char} {s : Segment}
    (h : Segment.ofText body = .ok s) : s ≠ .invalid := by
  rintro rfl
  rw [Segment.ofText.eq_def] at h
  split at h
  case h_1 rest => cases hread : Condition.ofText rest <;> rw [hread] at h <;> cases h
  case h_2 rest => cases hread : Instruction.ofText rest <;> rw [hread] at h <;> cases h
  case h_3 => cases h

/-- Whether a segment could be read is told by its errors. -/
theorem bodyErrors_eq_nil_iff (start : Nat) (body : List Char) :
    bodyErrors start body = [] ↔ Segment.ofBody body ≠ .invalid := by
  rw [bodyErrors, Segment.ofBody]
  cases hread : Segment.ofText body with
  | ok s => simp [Segment.ofText_ne_invalid hread]
  | error es =>
    have hne : es ≠ [] := fun hnil => Segment.ofText_ne_nil body (hnil ▸ hread)
    simp [hne]

/-! ### Chains -/

/-- Whether a row of segments could be read, all of them and to the end. -/
def Valid (read : List (Connector × Segment) × Bool) : Prop :=
  read.2 = true ∧ ∀ part ∈ read.1, part.2 ≠ .invalid

/-- There are no errors exactly if everything could be read. -/
theorem segmentsFrom_eq_nil_iff (connector : Connector) (start : Nat) (cs : List Char) :
    (segmentsFrom connector start cs).2 = [] ↔ Valid (readFrom connector start cs) := by
  induction cs using bracket_induction generalizing connector start with
  | missing cs hn =>
    rw [readFrom_missing hn, segmentsFrom, hn]
    simp [Valid]
  | last body hn =>
    rw [readFrom_bracket hn, segmentsFrom_bracket hn]
    simp [Valid, bodyErrors_eq_nil_iff]
  | behind body c rest hn ih =>
    rw [readFrom_bracket hn, segmentsFrom_bracket hn]
    dsimp only
    cases Connector.ofChar? c with
    | none => simp [Valid]
    | some next =>
      dsimp only
      rw [List.append_eq_nil_iff, ih next, bodyErrors_eq_nil_iff, Valid, Valid,
        List.forall_mem_cons]
      exact and_left_comm

/-- Whether no error is reported in a stored script. -/
def Clean (script : String) : Prop :=
  (Chain.ofText script).2 = []

instance (script : String) : Decidable (Clean script) :=
  inferInstanceAs (Decidable ((Chain.ofText script).2 = []))

/-- A script that begins with a bracket has no errors exactly if everything in it could be read. -/
theorem clean_iff {script : String} (h : script.toList.head? = some '[') :
    Clean script ↔ Valid (readSegments .and script.toList) := by
  obtain ⟨s, rest, -, hchain⟩ := ofText_shown (isBlank_of_opens h)
  rw [Clean, hchain, segmentsFrom_eq_nil_iff, readSegments]

/-- A script without errors has no invalid segment. -/
theorem Clean.valid {script : String} (h : Clean script) :
    ∀ part ∈ (Chain.ofText script).1.segments, part.2 ≠ .invalid := by
  intro part hpart
  cases hblank : Text.isBlank script.toList with
  | true =>
    rw [Chain.ofText, if_pos hblank, Chain.segments, List.mem_singleton] at hpart
    rw [hpart]
    exact Segment.noConfusion
  | false =>
    obtain ⟨s, rest, hread, hchain⟩ := ofText_shown hblank
    rw [Clean, hchain] at h
    rw [hchain] at hpart
    have hvalid := (segmentsFrom_eq_nil_iff .and 0 script.toList).mp h
    exact hvalid.2 part (by rw [← readSegments, hread]; exact hpart)

theorem clean_empty : Clean "" := by
  rw [Clean, Chain.ofText]
  rfl

/-- Stored conditions without errors are folded into a script without errors. -/
theorem clean_foldChains {scripts : List String}
    (hstored : ∀ t ∈ scripts, StoredCondition t.toList) (hclean : ∀ t ∈ scripts, Clean t) :
    Clean (foldChains scripts) := by
  induction scripts with
  | nil => exact clean_empty
  | cons script rest ih =>
    cases rest with
    | nil =>
      rw [foldChains_eq hstored, String.intercalate_singleton]
      exact hclean script List.mem_cons_self
    | cons next rest =>
      have hmore : ∀ t ∈ next :: rest, StoredCondition t.toList := fun t ht =>
        hstored t (List.mem_cons_of_mem script ht)
      have hfirst := (clean_iff (hstored script List.mem_cons_self).opens).mp
        (hclean script List.mem_cons_self)
      have hothers := (clean_iff (storedCondition_foldChains hmore).opens).mp
        (ih hmore fun t ht => hclean t (List.mem_cons_of_mem script ht))
      rw [clean_iff (storedCondition_foldChains hstored).opens, readSegments_foldChains hstored,
        if_pos hfirst.1]
      refine ⟨hothers.1, fun part hpart => ?_⟩
      rcases List.mem_append.mp hpart with hpart | hpart
      · exact hfirst.2 part hpart
      · exact hothers.2 part hpart

end Gamebook.Script
