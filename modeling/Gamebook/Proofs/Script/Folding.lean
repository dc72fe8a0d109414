import Gamebook.Proofs.Text.Brackets
import Gamebook.Script.Chain

/-!
# Folding stored conditions

The conditions above a verb are stored as texts, and the script at the root of the verb is those
texts with `&` between them. Here is what reading the joined text gives: the segments of the first
condition, then those of the second, and so on.

There is one exception. Reading a chain ends where brackets or a connector are missing, and an
author who leaves a closing bracket in a condition brings this about. What stands behind that place,
the other conditions included, is then not read at all.
-/

namespace Gamebook.Script

/-! ### Reading to the end -/

/-- Whether reading stops at an error. An error inside of a segment only spoils that segment. -/
def SyntaxError.endsReading : SyntaxError → Bool
  | .missingSegment | .badConnector _ => true
  | _ => false

/-- The segments of a text, the first with the given connector in front, and whether the text was
read to its end. -/
def readFrom (connector : Connector) (start : Nat) (cs : List Char) :
    List (Connector × Segment) × Bool :=
  ((segmentsFrom connector start cs).1,
    (segmentsFrom connector start cs).2.all fun e => !e.value.endsReading)

/-- The segment that stands between brackets. -/
def Segment.ofBody (body : List Char) : Segment :=
  match Segment.ofText body with
  | .ok s => s
  | .error _ => .invalid

/-- An error in a text that is read as a whole does not end the reading of the chain around it. -/
theorem parseAll_error {α : Type} {p : Parser α} {cs : List Char}
    {es : List (Located SyntaxError)} (h : parseAll p cs = .error es) :
    ∀ e ∈ es, e.value.endsReading = false := by
  rw [parseAll] at h
  split at h
  · cases h
    intro e he
    obtain ⟨c, -, rfl⟩ := List.mem_map.mp he
    rfl
  · dsimp only at h
    split at h
    · cases h
    · cases h
      intro e he
      obtain ⟨r, -, rfl⟩ := Option.map_eq_some_iff.mp (Option.mem_toList.mp he)
      rw [Report.error]
      split <;> rfl

/-- What is made of a reading does not change its errors. -/
theorem eq_error_of_map {ε α β : Type} {x : Except ε α} {f : α → β} {e : ε}
    (h : x.map f = .error e) : x = .error e := by
  cases x with
  | error e' =>
    cases h
    rfl
  | ok a => cases h

/-- Which errors a body has that cannot be read. -/
inductive Segment.Unread : List Char → List (Located SyntaxError) → Prop
  /-- Those of the condition behind its mark. -/
  | condition {rest : List Char} {es : List (Located SyntaxError)} :
      parseAll Parser.condition rest = .error es → Unread ('?' :: rest) es
  /-- Those of the action behind its mark. -/
  | instruction {rest : List Char} {es : List (Located SyntaxError)} :
      parseAll Parser.action (splitBreaks rest).1 = .error es → Unread ('!' :: rest) es
  /-- That it has no mark. -/
  | unmarked (body : List Char) :
      Unread body [⟨.unmarkedSegment (String.ofList body), ⟨0, Text.byteLength body⟩⟩]

theorem Segment.unread_of_ofText {body : List Char} {es : List (Located SyntaxError)}
    (h : Segment.ofText body = .error es) : Unread body es := by
  rw [Segment.ofText.eq_def] at h
  split at h
  case h_1 rest =>
    have hcondition := eq_error_of_map h
    rw [Condition.ofText] at hcondition
    split at hcondition
    · cases hcondition
    · exact .condition hcondition
  case h_2 rest =>
    have hinstruction := eq_error_of_map h
    rw [Instruction.ofText] at hinstruction
    dsimp only at hinstruction
    split at hinstruction
    · cases hinstruction
    · exact .instruction (eq_error_of_map hinstruction)
  case h_3 =>
    cases h
    exact .unmarked body

/-- An error inside of a segment does not end the reading of the chain. -/
theorem Segment.ofText_error {body : List Char} {es : List (Located SyntaxError)}
    (h : Segment.ofText body = .error es) : ∀ e ∈ es, e.value.endsReading = false := by
  cases Segment.unread_of_ofText h with
  | condition hcondition => exact parseAll_error hcondition
  | instruction haction => exact parseAll_error haction
  | unmarked =>
    intro e he
    rw [List.mem_singleton] at he
    subst he
    rfl

/-- The errors in a body whose brackets start at an offset. -/
def bodyErrors (start : Nat) (body : List Char) : List (Located SyntaxError) :=
  match Segment.ofText body with
  | .ok _ => []
  | .error es => es.map fun e => ⟨e.value, e.span.shift (start + 2)⟩

/-- An error in the body of a segment does not end the reading. -/
theorem endsReading_of_mem_bodyErrors {start : Nat} {body : List Char} {e : Located SyntaxError}
    (h : e ∈ bodyErrors start body) : e.value.endsReading = false := by
  rw [bodyErrors] at h
  split at h
  next => cases h
  next es hread =>
    obtain ⟨e', he', rfl⟩ := List.mem_map.mp h
    exact Segment.ofText_error hread e' he'

/-! ### One segment after the other -/

/-- A text begins with no pair of brackets, or is one, or has something behind a first one. -/
@[elab_as_elim]
theorem bracket_induction {P : List Char → Prop}
    (missing : ∀ cs, Text.Marker.bracket.lengthAt? cs = none → P cs)
    (last : ∀ body,
      Text.Marker.bracket.lengthAt? ('[' :: (body ++ [']'])) = some (body.length + 2) →
      P ('[' :: (body ++ [']'])))
    (behind : ∀ body c rest,
      Text.Marker.bracket.lengthAt? ('[' :: (body ++ ']' :: c :: rest)) = some (body.length + 2) →
      P rest → P ('[' :: (body ++ ']' :: c :: rest)))
    (cs : List Char) : P cs := by
  induction hlength : cs.length using Nat.strongRecOn generalizing cs with
  | ind length ih =>
    subst hlength
    cases hn : Text.Marker.bracket.lengthAt? cs with
    | none => exact missing cs hn
    | some n =>
      obtain ⟨body, more, rfl, rfl⟩ := Text.Marker.lengthAt?_split hn
      rcases more with _ | ⟨c, rest⟩
      · exact last body hn
      · refine behind body c rest hn (ih rest.length ?_ rest rfl)
        simp only [List.length_cons, List.length_append]
        omega

/-- Each bracket has one byte. -/
theorem byteLength_bracketed (body : List Char) :
    Text.byteLength ('[' :: (body ++ [']'])) = Text.byteLength body + 2 := by
  have hopening : Char.utf8Size '[' = 1 := rfl
  have hclosing : Char.utf8Size ']' = 1 := rfl
  simp only [Text.byteLength_cons, Text.byteLength_append, Text.byteLength_nil, hopening, hclosing]
  omega

section Bracket

variable {body behind : List Char}
  (h : Text.Marker.bracket.lengthAt? ('[' :: (body ++ ']' :: behind)) = some (body.length + 2))
  (connector : Connector) (start : Nat)
include h

/-- A body in brackets is a segment, with the errors in it; a connector behind it leads on. -/
theorem segmentsFrom_bracket : segmentsFrom connector start ('[' :: (body ++ ']' :: behind)) =
    match behind with
    | [] => ([(connector, .ofBody body)], bodyErrors start body)
    | c :: rest => match Connector.ofChar? c with
      | none => ([(connector, .ofBody body)], bodyErrors start body ++
        [⟨.badConnector c, Span.ofLength (start + Text.byteLength body + 2) c.utf8Size⟩])
      | some next =>
        let more := segmentsFrom next (start + Text.byteLength body + 3) rest
        ((connector, .ofBody body) :: more.1, bodyErrors start body ++ more.2) := by
  have hdrop : ('[' :: (body ++ ']' :: behind)).drop (body.length + 2) = behind := by simp
  have hbody : (('[' :: (body ++ ']' :: behind)).take (body.length + 2 - 1)).drop 1 = body := by
    simp
  have htake : ('[' :: (body ++ ']' :: behind)).take (body.length + 2) =
      '[' :: (body ++ [']']) := by
    rw [List.take_succ_cons, List.take_length_add_append, List.take_succ_cons, List.take_zero]
  rw [segmentsFrom.eq_def, h]
  dsimp only
  rw [hbody, htake, byteLength_bracketed, Segment.ofBody, bodyErrors]
  cases Segment.ofText body
  all_goals
    dsimp only
    split
    next hnone =>
      obtain rfl : behind = [] := hdrop.symm.trans hnone
      rfl
    next c rest hsome =>
      obtain rfl : behind = c :: rest := hdrop.symm.trans hsome
      cases hnext : Connector.ofChar? c <;> simp only [hnext] <;> rfl

/-- The errors in its body have no part in how far a text is read. -/
theorem readFrom_bracket : readFrom connector start ('[' :: (body ++ ']' :: behind)) =
    match behind with
    | [] => ([(connector, .ofBody body)], true)
    | c :: rest => match Connector.ofChar? c with
      | none => ([(connector, .ofBody body)], false)
      | some next =>
        let more := readFrom next (start + Text.byteLength body + 3) rest
        ((connector, .ofBody body) :: more.1, more.2) := by
  have hbody : ((bodyErrors start body).all fun e => !e.value.endsReading) = true :=
    List.all_eq_true.mpr fun e he => by rw [endsReading_of_mem_bodyErrors he, Bool.not_false]
  rw [readFrom, segmentsFrom_bracket h]
  cases behind with
  | nil => exact congrArg (Prod.mk _) hbody
  | cons c rest =>
    dsimp only
    cases Connector.ofChar? c with
    | none =>
      dsimp only
      rw [List.all_append, hbody, Bool.true_and]
      rfl
    | some next =>
      dsimp only
      rw [List.all_append, hbody, Bool.true_and]
      rfl

end Bracket

/-- Where no segment stands, reading ends. -/
theorem readFrom_missing {cs : List Char} (h : Text.Marker.bracket.lengthAt? cs = none)
    (connector : Connector) (start : Nat) :
    readFrom connector start cs = ([(connector, .invalid)], false) := by
  rw [readFrom, segmentsFrom, h]
  rfl

/-- Where a text starts says where its errors are, and nothing about the segments. -/
theorem readFrom_start (connector : Connector) (start start' : Nat) (cs : List Char) :
    readFrom connector start cs = readFrom connector start' cs := by
  induction cs using bracket_induction generalizing connector start start' with
  | missing cs hn => rw [readFrom_missing hn, readFrom_missing hn]
  | last body hn => rw [readFrom_bracket hn, readFrom_bracket hn]
  | behind body c rest hn ih =>
    rw [readFrom_bracket hn, readFrom_bracket hn]
    dsimp only
    cases Connector.ofChar? c with
    | none => rfl
    | some next =>
      dsimp only
      rw [ih next _ (start' + Text.byteLength body + 3)]

/-- The segments of a text, the first with the given connector in front, and whether the text was
read to its end, wherever it starts. -/
def readSegments (connector : Connector) (cs : List Char) : List (Connector × Segment) × Bool :=
  readFrom connector 0 cs

/-- What is read from a segment on, by the text behind its closing bracket. -/
def readBehind (connector : Connector) (s : Segment) :
    List Char → List (Connector × Segment) × Bool
  | [] => ([(connector, s)], true)
  | c :: rest => match Connector.ofChar? c with
    | none => ([(connector, s)], false)
    | some next => ((connector, s) :: (readSegments next rest).1, (readSegments next rest).2)

/-- Where no bracket opens, no segment is read. -/
theorem readSegments_missing {cs : List Char} (h : cs.head? ≠ some '[') (connector : Connector) :
    readSegments connector cs = ([(connector, .invalid)], false) := by
  refine readFrom_missing ?_ connector 0
  cases cs with
  | nil => rfl
  | cons c rest => exact Text.Marker.lengthAt?_other (fun hc => h (congrArg some hc)) rest

/-- A text in brackets is a segment, and what stands behind it is read next. -/
theorem readSegments_bracket {body behind : List Char}
    (h : Text.findClose '[' ']' 0 (body ++ ']' :: behind) = some (body.length + 1))
    (connector : Connector) :
    readSegments connector ('[' :: body ++ ']' :: behind) =
      readBehind connector (Segment.ofBody body) behind := by
  have hlength : Text.Marker.bracket.lengthAt? ('[' :: (body ++ ']' :: behind)) =
      some (body.length + 2) := by
    rw [Text.Marker.bracket, Text.Marker.lengthAt?_paired, h, Option.map_some]
  rw [List.cons_append, readSegments, readFrom_bracket hlength]
  cases behind with
  | nil => rfl
  | cons c rest =>
    dsimp only [readBehind]
    cases Connector.ofChar? c with
    | none => rfl
    | some next =>
      dsimp only [readSegments]
      rw [readFrom_start next _ 0 rest]

/-! ### Reading what is joined -/

/-- A script that can be followed by more: reading goes on behind a connector exactly if it comes to
the end of the script, and takes the same segments from it in either case. -/
def Continues (cs : List Char) : Prop :=
  ∀ (connector : Connector) (c : Char) (next : Connector) (more : List Char),
    Connector.ofChar? c = some next →
    readSegments connector (cs ++ c :: more) =
      if (readSegments connector cs).2 then
        ((readSegments connector cs).1 ++ (readSegments next more).1, (readSegments next more).2)
      else readSegments connector cs

/-- Scripts that can be followed by more can be joined. -/
theorem Continues.append {as bs : List Char} (ha : Continues as) (hb : Continues bs) {sep : Char}
    {next : Connector} (hsep : Connector.ofChar? sep = some next) :
    Continues (as ++ sep :: bs) := by
  intro connector c last more hc
  rw [List.append_assoc, List.cons_append, ha connector sep next _ hsep,
    ha connector sep next bs hsep, hb next c last more hc]
  cases hfirst : (readSegments connector as).2 with
  | false => simp [hfirst]
  | true =>
    cases hsecond : (readSegments next bs).2 with
    | false => simp [hsecond]
    | true => simp

/-! ### Stored conditions -/

/-- Whether a segment is no instruction. -/
def Segment.asks : Segment → Bool
  | .instruction _ => false
  | _ => true

/-- What stands behind a question mark in brackets is no instruction. -/
theorem Segment.asks_ofBody (rest : List Char) : (Segment.ofBody ('?' :: rest)).asks = true := by
  rw [ofBody, ofText]
  cases Condition.ofText rest with
  | ok c => rfl
  | error es => rfl

/-- Where a bracket closes inside of an unopened piece, what is left of the piece ends the reading,
whatever stands behind it. -/
theorem readBehind_unopened {back : List Char} (h : Text.Unopened back) (connector : Connector)
    {s : Segment} (hs : s.asks = true) :
    ∃ read : List (Connector × Segment) × Bool, read.2 = false ∧
      (∀ part ∈ read.1, part.2.asks = true) ∧
      ∀ behind, readBehind connector s (back ++ ']' :: behind) = read := by
  have hone : ∀ part ∈ [(connector, s)], part.2.asks = true := by simpa using hs
  cases h with
  | nil => exact ⟨([(connector, s)], false), rfl, hone, fun behind => rfl⟩
  | escape c _ => exact ⟨([(connector, s)], false), rfl, hone, fun behind => rfl⟩
  | @char c cs _ _ hcs =>
    cases hc : Connector.ofChar? c with
    | none =>
      refine ⟨([(connector, s)], false), rfl, hone, fun behind => ?_⟩
      simp only [List.cons_append, readBehind, hc]
    | some next =>
      refine ⟨([(connector, s), (next, .invalid)], false), rfl, ?_, fun behind => ?_⟩
      · simpa [Segment.asks] using hs
      · simp only [List.cons_append, readBehind, hc, readSegments_missing (hcs.head?_ne behind)]

/-- An unopened piece of a condition, put in brackets, is either one segment, or all that is read
of whatever it stands in front of. -/
theorem readSegments_piece {piece : List Char} (h : Text.Unopened piece) (connector : Connector) :
    (∃ s : Segment, s.asks = true ∧ ∀ behind,
      readSegments connector ('[' :: '?' :: piece ++ ']' :: behind) =
        readBehind connector s behind) ∨
    ∃ read : List (Connector × Segment) × Bool, read.2 = false ∧
      (∀ part ∈ read.1, part.2.asks = true) ∧
      ∀ behind, readSegments connector ('[' :: '?' :: piece ++ ']' :: behind) = read := by
  have hmarked : Text.Unopened ('?' :: piece) := .char (by decide) (by decide) h
  rcases hmarked.closes with hclose | ⟨front, back, hpiece, hback, hclose⟩
  · exact .inl ⟨_, Segment.asks_ofBody piece, fun behind =>
      readSegments_bracket (hclose behind) connector⟩
  · -- some bracket in the piece closes, and not the question mark in front of it
    cases front with
    | nil => simp at hpiece
    | cons c front =>
      rw [List.cons_append] at hpiece
      obtain ⟨rfl, rfl⟩ := List.cons.inj hpiece
      obtain ⟨read, hpart, hasks, hread⟩ :=
        readBehind_unopened hback connector (Segment.asks_ofBody front)
      refine .inr ⟨read, hpart, hasks, fun behind => ?_⟩
      have hclosed := hclose behind
      rw [List.cons_append, List.append_assoc, List.cons_append] at hclosed
      rw [← hread behind, ← readSegments_bracket hclosed]
      simp only [List.cons_append, List.append_assoc]

/-- A script that is stored for a condition. -/
structure StoredCondition (cs : List Char) : Prop where
  /-- It begins with a bracket. -/
  opens : cs.head? = some '['
  /-- More can be put behind it. -/
  continues : Continues cs
  /-- It only asks. -/
  asks : ∀ connector, ∀ part ∈ (readSegments connector cs).1, part.2.asks = true

/-- A piece of a condition in brackets is a stored condition. -/
theorem storedCondition_piece {piece : List Char} (h : Text.Unopened piece) :
    StoredCondition ('[' :: '?' :: piece ++ [']']) := by
  refine ⟨rfl, fun connector c next more hc => ?_, fun connector part hpart => ?_⟩
  · rw [List.append_assoc, List.singleton_append]
    rcases readSegments_piece h connector with ⟨s, -, hread⟩ | ⟨read, hstop, -, hread⟩
    · rw [hread, hread]
      simp only [readBehind, hc, if_true, List.singleton_append]
    · rw [hread, hread, hstop, if_neg Bool.false_ne_true]
  · rcases readSegments_piece h connector with ⟨s, hs, hread⟩ | ⟨read, -, hasks, hread⟩
    · rw [hread, readBehind, List.mem_singleton] at hpart
      rw [hpart]
      exact hs
    · rw [hread] at hpart
      exact hasks part hpart

/-- Stored conditions joined by a connector are one. -/
theorem StoredCondition.append {as bs : List Char} (ha : StoredCondition as)
    (hb : StoredCondition bs) {sep : Char} {next : Connector}
    (hsep : Connector.ofChar? sep = some next) : StoredCondition (as ++ sep :: bs) := by
  refine ⟨?_, ha.continues.append hb.continues hsep, fun connector part hpart => ?_⟩
  · rw [List.head?_append, ha.opens]
    rfl
  · rw [ha.continues connector sep next bs hsep] at hpart
    split at hpart
    · rcases List.mem_append.mp hpart with hpart | hpart
      · exact ha.asks connector part hpart
      · exact hb.asks next part hpart
    · exact ha.asks connector part hpart

/-- What an author wrote behind a question mark, up to the next statement, is stored as a
condition. -/
theorem storedCondition_chainText {run : List Char} (h : Text.Unopened run) :
    StoredCondition (chainText '?' run) := by
  -- the pieces are joined one by one to those in front of them
  have hjoin : ∀ (parts : List (Char × List Char)) (front : List Char), StoredCondition front →
      (∀ part ∈ parts, (part.1 == '&' || part.1 == '|') = true ∧ Text.Unopened part.2) →
      StoredCondition (front ++ parts.flatMap fun part =>
        part.1 :: ('[' :: '?' :: part.2 ++ [']'])) := by
    intro parts
    induction parts with
    | nil =>
      intro front hfront _
      simpa using hfront
    | cons part parts ih =>
      intro front hfront hparts
      obtain ⟨hsep, hpiece⟩ := hparts part List.mem_cons_self
      have hconnector : ∃ next, Connector.ofChar? part.1 = some next := by
        rcases Bool.or_eq_true_iff.mp hsep with hsep | hsep
        · exact ⟨.and, by rw [eq_of_beq hsep]; rfl⟩
        · exact ⟨.or, by rw [eq_of_beq hsep]; rfl⟩
      obtain ⟨next, hnext⟩ := hconnector
      have hall := ih _ (hfront.append (storedCondition_piece hpiece) hnext)
        fun p hp => hparts p (List.mem_cons_of_mem _ hp)
      rwa [List.append_assoc] at hall
  obtain ⟨hhead, htail⟩ := Text.Unopened.stepwise.splitTopLevel (fun c => c == '&' || c == '|') 0 h
  exact hjoin _ _ (storedCondition_piece hhead) htail

/-! ### Chains of joined conditions -/

/-- The segments of a chain, the first behind an `&`. -/
def Chain.segments (c : Chain) : List (Connector × Segment) :=
  (.and, c.first) :: c.rest

/-- Whether reading a script comes to its end. -/
def ReadThrough (script : String) : Prop :=
  ∀ e ∈ (Chain.ofText script).2, e.value.endsReading = false

instance (script : String) : Decidable (ReadThrough script) :=
  inferInstanceAs (Decidable (∀ e ∈ (Chain.ofText script).2, e.value.endsReading = false))

/-- Reading always finds a first segment, with the connector in front of it. -/
theorem readSegments_head (connector : Connector) (cs : List Char) :
    ∃ s rest, (readSegments connector cs).1 = (connector, s) :: rest := by
  rw [readSegments]
  cases hn : Text.Marker.bracket.lengthAt? cs with
  | none =>
    rw [readFrom_missing hn]
    exact ⟨_, _, rfl⟩
  | some n =>
    obtain ⟨body, behind, rfl, rfl⟩ := Text.Marker.lengthAt?_split hn
    rw [readFrom_bracket hn]
    split
    · exact ⟨_, _, rfl⟩
    · split
      · exact ⟨_, _, rfl⟩
      · exact ⟨_, _, rfl⟩

/-- A script that begins with a bracket is not blank. -/
theorem isBlank_of_opens {cs : List Char} (h : cs.head? = some '[') : Text.isBlank cs = false := by
  obtain ⟨rest, rfl⟩ := List.head?_eq_some_iff.mp h
  rfl

/-- The chain of a script that is not blank is what is read from it. -/
theorem ofText_shown {script : String} (h : Text.isBlank script.toList = false) : ∃ s rest,
    (readSegments .and script.toList).1 = (.and, s) :: rest ∧
      Chain.ofText script = (⟨s, rest⟩, (segmentsFrom .and 0 script.toList).2) := by
  obtain ⟨s, rest, hread⟩ := readSegments_head .and script.toList
  have hsegments : segmentsFrom .and 0 script.toList =
      ((.and, s) :: rest, (segmentsFrom .and 0 script.toList).2) := Prod.ext hread rfl
  exact ⟨s, rest, hread, by rw [Chain.ofText, h, if_neg Bool.false_ne_true, hsegments]⟩

/-- The chain of a script that begins with a bracket has the segments that are read from it. -/
theorem ofText_segments {script : String} (h : script.toList.head? = some '[') :
    (Chain.ofText script).1.segments = (readSegments .and script.toList).1 ∧
      (ReadThrough script ↔ (readSegments .and script.toList).2 = true) := by
  obtain ⟨s, rest, hread, hchain⟩ := ofText_shown (isBlank_of_opens h)
  refine ⟨?_, ?_⟩
  · rw [hchain, hread]
    rfl
  · rw [ReadThrough, hchain, readSegments, readFrom, List.all_eq_true]
    simp only [Bool.not_eq_true']

/-- A stored condition is not empty. -/
theorem StoredCondition.isEmpty_eq {script : String} (h : StoredCondition script.toList) :
    script.isEmpty = false := by
  refine Bool.eq_false_iff.mpr fun hempty => ?_
  have hopens := h.opens
  rw [String.isEmpty_iff.mp hempty] at hopens
  cases hopens

/-- Folding leaves out none of some stored conditions. -/
theorem foldChains_eq {scripts : List String} (hall : ∀ t ∈ scripts, StoredCondition t.toList) :
    foldChains scripts = "&".intercalate scripts := by
  rw [foldChains, List.filter_eq_self.mpr]
  intro t ht
  rw [(hall t ht).isEmpty_eq]
  rfl

/-- Folding puts an `&` behind the first of several stored conditions. -/
theorem toList_foldChains {script next : String} {rest : List String}
    (hall : ∀ t ∈ script :: next :: rest, StoredCondition t.toList) :
    (foldChains (script :: next :: rest)).toList =
      script.toList ++ '&' :: (foldChains (next :: rest)).toList := by
  rw [foldChains_eq hall, foldChains_eq fun t ht => hall t (List.mem_cons_of_mem _ ht),
    String.intercalate_cons_cons]
  simp

/-- Stored conditions that are joined are again one, unless there are none. -/
theorem storedCondition_foldChains {script : String} {rest : List String}
    (hall : ∀ t ∈ script :: rest, StoredCondition t.toList) :
    StoredCondition (foldChains (script :: rest)).toList := by
  induction rest generalizing script with
  | nil =>
    rw [foldChains_eq hall, String.intercalate_singleton]
    exact hall script List.mem_cons_self
  | cons next rest ih =>
    rw [toList_foldChains hall]
    exact (hall script List.mem_cons_self).append
      (ih fun t ht => hall t (List.mem_cons_of_mem _ ht)) rfl

/-- The first of some stored conditions that are joined is read; if reading comes to its end, the
others are read behind it. -/
theorem readSegments_foldChains {script next : String} {rest : List String}
    (hall : ∀ t ∈ script :: next :: rest, StoredCondition t.toList) :
    readSegments .and (foldChains (script :: next :: rest)).toList =
      if (readSegments .and script.toList).2 then
        ((readSegments .and script.toList).1 ++
            (readSegments .and (foldChains (next :: rest)).toList).1,
          (readSegments .and (foldChains (next :: rest)).toList).2)
      else readSegments .and script.toList := by
  rw [toList_foldChains hall]
  exact (hall script List.mem_cons_self).continues .and '&' .and _ rfl

end Gamebook.Script
