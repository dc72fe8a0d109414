import Gamebook.Proofs.Page.Settling
import Gamebook.Proofs.Text.Bytes

/-!
# Bodies read by positions

Here a body is read as by a program that keeps no more of it than a position in bytes. It looks at
the text from a position on, cuts it between two of them, and finds the next one by a search over
bytes. Every cut goes through `Text.slice?`, so that a cut inside of a character, or at two
positions in the wrong order, makes all of the reading fail; and it fails if there are more
statements than allowed for.

None of it ever happens. Each statement, read from a position between two characters, agrees with
the one read from the characters behind that position (`Draft.Agrees`), and it leads to a later
position between two characters (`Draft.stepAt?_advances`). So the whole body is read, in no more
statements than it has bytes (`Page.ofBodyAt?_eq`).
-/

namespace Gamebook

open Script

namespace Draft

/-! ### Reading by positions -/

/-- Report a problem, with the text from where it was noticed; fails where no character begins. -/
def reportAt? (d : Draft) (text : String) (pos : Nat) (p : BodyProblem) : Option Draft :=
  (Text.slice? text (min pos text.utf8ByteSize) text.utf8ByteSize).map fun near => d.report near p

/-- Report the errors in a stored script. -/
def validateAt? (d : Draft) (text : String) (pos : Nat) (expression : String) : Option Draft :=
  (Chain.ofText expression).2.foldlM (fun d e =>
    d.reportAt? text pos (.badExpression expression e.value)) d

/-- Leave a scope for good. -/
def leaveAt? (d : Draft) (text : String) (s : Scope) : Option Draft :=
  if (d.page.block? s.block).any fun b => !b.hasChildren then
    d.reportAt? text text.utf8ByteSize .emptyCondition
  else some d

/-- Leave the innermost scopes as long as they are implied. -/
def leaveImpliedAt? (d : Draft) (text : String) : List Scope → Option (Draft × List Scope)
  | [] => some (d, [])
  | s :: outer =>
    if s.implied then (d.leaveAt? text s).bind fun d => d.leaveImpliedAt? text outer
    else some (d, s :: outer)

/-- Leave the implied scopes of the verb at hand. -/
def closeImpliedAt? (d : Draft) (text : String) : Option Draft :=
  match d.verb with
  | none => some d
  | some v => do
    let (d, inner) ← d.leaveImpliedAt? text v.inner
    return { d with verb := some { v with inner } }

/-- End the verb at hand and declare it on the page. -/
def flushVerbAt? (d : Draft) (text : String) : Option Draft := do
  let d ← d.closeImpliedAt? text
  match d.verb with
  | none => return d
  | some v =>
    let d ← (if v.inner.isEmpty then some d
      else d.reportAt? text text.utf8ByteSize .scopeNotClosed)
    let d := { d with verb := none }
    match d.page.addVerb ⟨v.names.headD "", v.names, v.root⟩ with
    | .ok page => return { d with page }
    | .error e => d.reportAt? text text.utf8ByteSize (.pageError e)

/-- The position of the next statement. -/
def statementEnd (text : String) (start : Nat) : Nat :=
  (Text.firstOf? statementStarts text start).getD text.utf8ByteSize

/-- A quoted text. -/
def textAt? (d : Draft) (text : String) (start : Nat) : Option (Draft × Nat) :=
  match Text.Marker.textBlock.stop? text start with
  | none => do return (← d.reportAt? text start .unterminatedText, text.utf8ByteSize)
  | some stop => do
    let content := Text.unescape (← Text.slice? text (start + 1) (stop - 1))
    match d.verb with
    | some v => return ((d.addBlock v (.text (String.ofList content))).1, stop)
    | none => return (← d.reportAt? text start .textOutsideVerb, stop)

/-- An instruction. -/
def instructionAt? (d : Draft) (text : String) (start : Nat) : Option (Draft × Nat) := do
  let stop := statementEnd text (start + 1)
  let expression := String.ofList (chainText '!' (← Text.slice? text (start + 1) stop))
  let d ← d.validateAt? text start expression
  match d.verb with
  | some v => return ((d.addBlock v (.script expression)).1, stop)
  | none => return (← d.reportAt? text start .instructionOutsideVerb, stop)

/-- A condition. What stands behind it is looked at only if it may be the declaration of a verb. -/
def conditionAt? (d : Draft) (text : String) (start : Nat) : Option (Draft × Nat) := do
  let stop := statementEnd text (start + 1)
  let expression := String.ofList (chainText '?' (← Text.slice? text (start + 1) stop))
  let d ← d.validateAt? text start expression
  let explicit := (← Text.slice? text stop text.utf8ByteSize).head? == some '\x7b'
  let after := if explicit then stop + 1 else stop
  let d ← d.closeImpliedAt? text
  match d.verb with
  | none => return (d.pend expression explicit, after)
  | some v =>
    let guards ← (if v.inner.isEmpty then
        (Text.slice? text after text.utf8ByteSize).map declaresVerb
      else some false)
    if guards then return ((← d.flushVerbAt? text).pend expression explicit, after)
    else
      let (d, id) := d.addBlock v (.script expression)
      return ({ d with verb := some { v with inner := ⟨id, !explicit⟩ :: v.inner } }, after)

/-- The names declared at a position, and the position behind them. -/
def declarationsAt? (d : Draft) (text : String) (names : List String) (pos : Nat) :
    Option (Draft × Option (List String × Nat)) :=
  (Text.slice? text pos text.utf8ByteSize).bind fun behind =>
    if declaresVerb behind then
      match _found : Text.Marker.bracket.stop? text pos with
      | none => (d.reportAt? text pos .unmatchedBracket).map fun d => (d, none)
      | some stop => (Text.slice? text (pos + 2) (stop - 1)).bind fun inside =>
        let name := Text.unescape (Text.trim inside)
        if name.isEmpty then
          (d.reportAt? text pos .namelessVerb).bind fun d => d.declarationsAt? text names stop
        else d.declarationsAt? text (names ++ [String.ofList name]) stop
    else some (d, some (names, pos))
termination_by text.utf8ByteSize - pos
decreasing_by
  all_goals
    have hbounds := Text.Marker.stop?_bounds _found
    omega

/-- The declaration of a verb. -/
def verbDeclarationAt? (d : Draft) (text : String) (start : Nat) : Option (Draft × Nat) := do
  if declaresVerb (← Text.slice? text start text.utf8ByteSize) then
    match ← d.declarationsAt? text [] start with
    | (d, none) => return (d, text.utf8ByteSize)
    | (d, some (names, pos)) =>
      let d ← d.flushVerbAt? text
      if names.isEmpty then return (d, pos)
      else
        let guard := foldChains (d.pending.reverse.map (·.expression))
        let (page, root) := d.page.addBlock (.script guard)
        return ({ d with page, verb := some ⟨names, root, []⟩ }, pos)
  else
    let d ← d.reportAt? text start .verbExpected
    return (d, (Text.Marker.bracket.stop? text start).getD (statementEnd text (start + 1)))

/-- A closing brace. -/
def closeScopeAt? (d : Draft) (text : String) (start : Nat) : Option (Draft × Nat) := do
  let opensElse := (← Text.slice? text (start + 1) text.utf8ByteSize).head? == some '\x7b'
  let d ← d.closeImpliedAt? text
  match d.verb with
  | some ⟨names, root, s :: outer⟩ =>
    let d ← d.leaveAt? text s
    let v : OpenVerb := ⟨names, root, outer⟩
    if opensElse then
      let (d, id) := d.addBlock v .otherwise
      return ({ d with verb := some { v with inner := ⟨id, false⟩ :: outer } }, start + 2)
    else return ({ d with verb := some v }, start + 1)
  | _ =>
    if d.depth = 0 then return (← d.reportAt? text start .unmatchedBrace, start + 1)
    else
      let d ← d.flushVerbAt? text
      let pending := (d.pending.dropWhile fun p => !(p.explicit && p.depth + 1 == d.depth)).drop 1
      return ({ d with pending, depth := d.depth - 1 }, start + 1)

/-- Read the statement at a position, where the character `c` stands, and answer the position of
the next one. -/
def stepAt? (d : Draft) (text : String) (pos : Nat) (c : Char) : Option (Draft × Nat) :=
  if Text.isSpace c then some (d, pos + c.utf8Size)
  else if c = '"' then d.textAt? text pos
  else if c = '!' then d.instructionAt? text pos
  else if c = '?' then d.conditionAt? text pos
  else if c = '[' then d.verbDeclarationAt? text pos
  else if c = '\x7d' then d.closeScopeAt? text pos
  else do
    let d ← d.reportAt? text pos (.unexpectedCharacter c)
    return (d, statementEnd text (pos + c.utf8Size))

/-- Read all statements from a position on; fails if they are more than so many. -/
def runAt? (text : String) (statements : Nat) (d : Draft) (pos : Nat) : Option Draft :=
  if pos < text.utf8ByteSize then
    match statements with
    | 0 => none
    | more + 1 => do
      match ← Text.slice? text pos text.utf8ByteSize with
      | [] => return d
      | c :: _ =>
        let (d, next) ← d.stepAt? text pos c
        d.runAt? text more next
  else some d

/-- End the body. -/
def finishAt? (d : Draft) (text : String) : Option Draft := do
  let d ← d.flushVerbAt? text
  if d.depth = 0 then return d else d.reportAt? text text.utf8ByteSize .topLevelNotClosed

end Draft

/-- Read the body of a page by positions, in no more statements than it has bytes. -/
def Page.ofBodyAt? (page : Page) (body : String) (origin : Span) :
    Option (Page × List Diagnostic) := do
  let d ← Draft.runAt? body body.utf8ByteSize { page, origin } 0
  let d ← d.finishAt? body
  return ({ d.page with source := body }, d.diagnostics)

namespace Draft

variable {text : String} {pos : Nat} {cs : List Char}

/-! ### Reports and scopes -/

theorem reportAt?_eq (h : Text.At text pos cs) (d : Draft) (p : BodyProblem) :
    d.reportAt? text pos p = some (d.report cs p) := by
  rw [reportAt?, Nat.min_eq_left h.le, h.slice?_end, Option.map_some]

theorem reportAt?_end (text : String) (d : Draft) (p : BodyProblem) :
    d.reportAt? text text.utf8ByteSize p = some (d.report [] p) :=
  reportAt?_eq (.stop text) d p

theorem validateAt?_eq (h : Text.At text pos cs) (d : Draft) (expression : String) :
    d.validateAt? text pos expression = some (d.validate cs expression) := by
  rw [validateAt?, validate]
  generalize (Chain.ofText expression).2 = errors
  induction errors generalizing d with
  | nil => rfl
  | cons e errors ih =>
    rw [List.foldlM_cons, reportAt?_eq h]
    exact ih _

theorem leaveAt?_eq (text : String) (d : Draft) (s : Scope) :
    d.leaveAt? text s = some (d.leave s) := by
  rw [leaveAt?, leave]
  split
  · exact reportAt?_end text d _
  · rfl

theorem leaveImpliedAt?_eq (text : String) (d : Draft) (scopes : List Scope) :
    d.leaveImpliedAt? text scopes = some (d.leaveImplied scopes) := by
  induction scopes generalizing d with
  | nil => rfl
  | cons s outer ih =>
    rw [leaveImpliedAt?, leaveImplied, leaveAt?_eq]
    split
    · exact ih _
    · rfl

theorem closeImpliedAt?_eq (text : String) (d : Draft) :
    d.closeImpliedAt? text = some d.closeImplied := by
  rw [closeImpliedAt?, closeImplied]
  cases d.verb with
  | none => rfl
  | some v =>
    dsimp only
    rw [leaveImpliedAt?_eq]
    rfl

theorem flushVerbAt?_eq (text : String) (d : Draft) :
    d.flushVerbAt? text = some d.flushVerb := by
  rw [flushVerbAt?, flushVerb, closeImpliedAt?_eq]
  generalize d.closeImplied = d
  dsimp only [Option.bind_eq_bind, Option.bind_some]
  cases d.verb with
  | none => rfl
  | some v =>
    have hopen : (if v.inner.isEmpty then some d
        else d.reportAt? text text.utf8ByteSize .scopeNotClosed) =
          some (if v.inner.isEmpty then d else d.report [] .scopeNotClosed) := by
      split
      · rfl
      · exact reportAt?_end text d _
    dsimp only
    rw [hopen]
    dsimp only [Option.bind_some]
    generalize (if v.inner.isEmpty then d else d.report [] .scopeNotClosed) = d
    cases d.page.addVerb ⟨v.names.headD "", v.names, v.root⟩ with
    | ok page => rfl
    | error e => exact reportAt?_end text _ _

theorem finishAt?_eq (text : String) (d : Draft) : d.finishAt? text = some d.finish := by
  rw [finishAt?, finish, flushVerbAt?_eq]
  dsimp only [Option.bind_eq_bind, Option.bind_some]
  split
  · rfl
  · exact reportAt?_end text _ _

/-! ### Statements -/

/-- Whether reading by positions never failed, and came to the same draft as reading character by
character; the position it came to has the rest of the text behind it. -/
def Agrees (text : String) (cs : List Char) (found : Option (Draft × Nat)) (result : Draft × Nat) :
    Prop :=
  ∃ next, found = some (result.1, next) ∧ Text.At text next (cs.drop (result.2 + 1))

/-- The next statement is found at the same place. -/
theorem statementEnd_eq (h : Text.At text pos cs) :
    statementEnd text pos = pos + Text.byteLength (cs.take (statementLength cs)) := by
  rw [statementEnd, statementLength, h.firstOf?_eq]
  cases Text.find (Text.startsWithOneOf statementStarts) cs with
  | none => rw [Option.map_none, Option.getD_none, Option.getD_none, List.take_length, h.place]
  | some n => rfl

theorem at_statementEnd (h : Text.At text pos cs) :
    Text.At text (statementEnd text pos) (cs.drop (statementLength cs)) := by
  rw [statementEnd_eq h]
  exact h.drop _

/-- The run up to the next statement. -/
theorem slice?_statementEnd (h : Text.At text pos cs) :
    Text.slice? text pos (statementEnd text pos) = some (cs.take (statementLength cs)) := by
  rw [statementEnd_eq h]
  exact h.slice?_take _

theorem textAt?_agrees (h : Text.At text pos cs) (d : Draft) :
    Agrees text cs (d.textAt? text pos) (d.text cs) := by
  rw [textAt?, Draft.text]
  cases hlength : Text.Marker.textBlock.lengthAt? cs with
  | none =>
    have hstop : Text.Marker.textBlock.stop? text pos = none :=
      h.stop?_eq_none (by decide) (by decide) hlength
    dsimp only
    rw [hstop]
    -- a text that is not closed takes the rest of the body
    refine ⟨text.utf8ByteSize, ?_, ?_⟩
    · dsimp only
      rw [reportAt?_eq h]
      rfl
    · rw [List.drop_of_length_le (by dsimp only; omega)]
      exact .stop text
  | some n =>
    obtain ⟨inside, behind, rfl, rfl, hstop, hbehind⟩ :=
      h.exists_pair (by decide) (by decide) hlength
    have hslice : Text.slice? text (pos + 1) (pos + Text.byteLength inside + 2 - 1) =
        some inside := by
      rw [show pos + Text.byteLength inside + 2 - 1 = pos + 1 + Text.byteLength inside by omega]
      exact h.next.slice?_eq
    have hinside : (('"' :: (inside ++ '"' :: behind)).take (inside.length + 2 - 1)).drop 1 =
        inside := by
      simp
    refine ⟨pos + Text.byteLength inside + 2, ?_, ?_⟩
    · rw [Text.Marker.textBlock, hstop]
      dsimp only
      rw [hslice, hinside]
      dsimp only [Option.bind_eq_bind, Option.bind_some]
      cases d.verb with
      | none =>
        dsimp only
        rw [reportAt?_eq h]
        rfl
      | some v => rfl
    · simpa using hbehind

theorem instructionAt?_agrees {c : Char} (h : Text.At text pos (c :: cs)) (hc : c.utf8Size = 1)
    (d : Draft) : Agrees text (c :: cs) (d.instructionAt? text pos) (d.instruction (c :: cs)) := by
  have hnext : Text.At text (pos + 1) cs := hc ▸ h.next
  refine ⟨statementEnd text (pos + 1), ?_, at_statementEnd hnext⟩
  rw [instructionAt?, instruction, List.drop_one, List.tail_cons, slice?_statementEnd hnext]
  dsimp only [Option.bind_eq_bind, Option.bind_some]
  rw [validateAt?_eq h]
  generalize d.validate (c :: cs) (String.ofList (chainText '!' (cs.take (statementLength cs)))) = d
  dsimp only [Option.bind_some]
  cases d.verb with
  | none =>
    dsimp only
    rw [reportAt?_eq h]
    rfl
  | some v => rfl

/-- The position behind an opening brace. -/
theorem at_behindBrace (h : Text.At text pos cs) (hopen : (cs.head? == some '\x7b') = true) :
    Text.At text (pos + 1) (cs.drop 1) := by
  obtain ⟨rest, rfl⟩ := List.head?_eq_some_iff.mp (beq_iff_eq.mp hopen)
  exact h.next

theorem conditionAt?_agrees {c : Char} (h : Text.At text pos (c :: cs)) (hc : c.utf8Size = 1)
    (d : Draft) : Agrees text (c :: cs) (d.conditionAt? text pos) (d.condition (c :: cs)) := by
  have hnext : Text.At text (pos + 1) cs := hc ▸ h.next
  have hstop := at_statementEnd hnext
  have hdrop : (c :: cs).drop (statementLength cs + 1) = cs.drop (statementLength cs) := rfl
  rw [conditionAt?, condition, List.drop_one, List.tail_cons, slice?_statementEnd hnext, hdrop]
  dsimp only [Option.bind_eq_bind, Option.bind_some]
  rw [validateAt?_eq h, Option.bind_some, hstop.slice?_end, Option.bind_some, closeImpliedAt?_eq,
    Option.bind_some]
  generalize String.ofList (chainText '?' (cs.take (statementLength cs))) = expression
  generalize (d.validate (c :: cs) expression).closeImplied = d
  generalize hexplicit : ((cs.drop (statementLength cs)).head? == some '\x7b') = explicit
  have hrest : (if explicit then (cs.drop (statementLength cs)).drop 1
      else cs.drop (statementLength cs)) =
        cs.drop (if explicit then statementLength cs + 1 else statementLength cs) := by
    cases explicit with
    | true => exact List.drop_drop
    | false => rfl
  have hafter : Text.At text
      (if explicit then statementEnd text (pos + 1) + 1 else statementEnd text (pos + 1))
      (cs.drop (if explicit then statementLength cs + 1 else statementLength cs)) := by
    rw [← hrest]
    cases explicit with
    | true => exact at_behindBrace hstop hexplicit
    | false => exact hstop
  rw [hrest]
  -- the same place is come to whatever becomes of the condition
  refine ⟨_, ?_, hafter⟩
  cases d.verb with
  | none => rfl
  | some v =>
    dsimp only
    rw [hafter.slice?_end, Option.map_some]
    cases hinner : v.inner.isEmpty with
    | false => rfl
    | true =>
      rw [if_pos rfl, Option.bind_some, Bool.true_and]
      cases declaresVerb (cs.drop (if explicit then statementLength cs + 1
          else statementLength cs)) with
      | false => rfl
      | true =>
        rw [if_pos rfl, flushVerbAt?_eq]
        rfl

/-! ### Declarations of verbs -/

/-- A declaration is read up to its closing bracket. -/
theorem declarationsAt?_declared {rest : List Char} {n : Nat}
    (h : Text.At text pos ('[' :: ':' :: rest))
    (hclose : Text.findClose '[' ']' 0 (':' :: rest) = some n) (d : Draft) (names : List String) :
    ∃ next, Text.At text next ((':' :: rest).drop n) ∧ d.declarationsAt? text names pos =
      if (Text.unescape (Text.trim (rest.take (n - 2)))).isEmpty then
        (d.report ('[' :: ':' :: rest) .namelessVerb).declarationsAt? text names next
      else d.declarationsAt? text
        (names ++ [String.ofList (Text.unescape (Text.trim (rest.take (n - 2))))]) next := by
  have hlength : Text.Marker.bracket.lengthAt? ('[' :: ':' :: rest) = some (n + 1) := by
    rw [Text.Marker.bracket, Text.Marker.lengthAt?_paired, hclose]
    rfl
  obtain ⟨inside, behind, hcs, hn, hstop, hbehind⟩ :=
    h.exists_pair (by decide) (by decide) hlength
  obtain rfl : n = inside.length + 1 := by omega
  -- the colon stands inside of the brackets, in front of the name
  rcases inside with _ | ⟨colon, name⟩
  · simp at hcs
  obtain ⟨rfl, rfl⟩ : ':' = colon ∧ rest = name ++ ']' :: behind := by
    simpa using hcs
  refine ⟨pos + Text.byteLength (':' :: name) + 2, by simpa using hbehind, ?_⟩
  have hslice : Text.slice? text (pos + 2) (pos + Text.byteLength (':' :: name) + 2 - 1) =
      some name := by
    rw [show pos + Text.byteLength (':' :: name) + 2 - 1 = pos + 2 + Text.byteLength name by
      rw [Text.byteLength_cons, Text.utf8Size_ascii (by decide)]
      omega]
    exact h.next.next.slice?_eq
  have hname : (name ++ ']' :: behind).take ((':' :: name).length + 1 - 2) = name := by
    simp
  rw [declarationsAt?, h.slice?_end, Option.bind_some, if_pos (by rfl), hname]
  split
  next hnone =>
    rw [Text.Marker.bracket, hstop] at hnone
    cases hnone
  next stop hsome =>
    obtain rfl := Option.some.inj (hstop.symm.trans hsome)
    rw [hslice, Option.bind_some, reportAt?_eq h]
    rfl

theorem declaresVerb_iff (cs : List Char) :
    declaresVerb cs = true ↔ ∃ rest, cs = '[' :: ':' :: rest := by
  rw [declaresVerb, List.isPrefixOf_iff_prefix]
  exact exists_congr fun _ => eq_comm

/-- The names are the same, and they end where the rest of the text begins. -/
theorem declarationsAt?_eq (h : Text.At text pos cs) (d : Draft) (names : List String) :
    ∃ d', (d.declarationsAt? text names pos = some (d', none) ∧
        d.declarations names cs = (d', none)) ∨
      ∃ found next behind, d.declarationsAt? text names pos = some (d', some (found, next)) ∧
        d.declarations names cs = (d', some (found, behind)) ∧ Text.At text next behind ∧
        behind <:+ cs ∧ (declaresVerb cs → behind.length < cs.length) := by
  have hbehind {rest behind : List Char} {n : Nat} (hsuffix : behind <:+ (':' :: rest).drop n) :
      behind <:+ '[' :: ':' :: rest ∧ (declaresVerb ('[' :: ':' :: rest) →
        behind.length < ('[' :: ':' :: rest).length) := by
    have hinner := hsuffix.trans (List.drop_suffix n _)
    exact ⟨hinner.trans (List.suffix_cons _ _), fun _ => Nat.lt_succ_of_le hinner.length_le⟩
  induction d, names, cs using Draft.declarations.induct generalizing pos with
  | case1 d names rest hnone =>
    have hlength : Text.Marker.bracket.lengthAt? ('[' :: ':' :: rest) = none := by
      rw [Text.Marker.bracket, Text.Marker.lengthAt?_paired, hnone]
      rfl
    have hstop : Text.Marker.bracket.stop? text pos = none :=
      h.stop?_eq_none (by decide) (by decide) hlength
    refine ⟨d.report ('[' :: ':' :: rest) .unmatchedBracket, .inl ⟨?_, ?_⟩⟩
    · rw [declarationsAt?, h.slice?_end, Option.bind_some, if_pos (by rfl)]
      split
      · rw [reportAt?_eq h]
        rfl
      next hsome =>
        rw [hstop] at hsome
        cases hsome
    · rw [declarations, hnone]
  | case2 d names rest n hclose _ _ hempty =>
    rename_i ih
    obtain ⟨next, hnext, heq⟩ := declarationsAt?_declared h hclose d names
    rw [heq, if_pos hempty, declarations, hclose]
    dsimp only
    rw [if_pos hempty]
    obtain ⟨d', hnone | ⟨found, last, behind, hfound, hmodel, hlast, hsuffix, -⟩⟩ := ih hnext
    · exact ⟨d', .inl hnone⟩
    · exact ⟨d', .inr ⟨found, last, behind, hfound, hmodel, hlast, hbehind hsuffix⟩⟩
  | case3 d names rest n hclose _ _ hempty =>
    rename_i ih
    obtain ⟨next, hnext, heq⟩ := declarationsAt?_declared h hclose d names
    rw [heq, if_neg hempty, declarations, hclose]
    dsimp only
    rw [if_neg hempty]
    obtain ⟨d', hnone | ⟨found, last, behind, hfound, hmodel, hlast, hsuffix, -⟩⟩ := ih hnext
    · exact ⟨d', .inl hnone⟩
    · exact ⟨d', .inr ⟨found, last, behind, hfound, hmodel, hlast, hbehind hsuffix⟩⟩
  | case4 d names cs hother =>
    have hdeclares : ¬ declaresVerb cs = true := by
      intro hverb
      obtain ⟨rest, hcs⟩ := (declaresVerb_iff cs).mp hverb
      exact hother rest hcs
    refine ⟨d, .inr ⟨names, pos, cs, ?_, declarations_eq hother, h, List.suffix_refl cs,
      fun hverb => absurd hverb hdeclares⟩⟩
    rw [declarationsAt?, h.slice?_end, Option.bind_some, if_neg hdeclares]

theorem verbDeclarationAt?_agrees {rest : List Char} (h : Text.At text pos ('[' :: rest))
    (d : Draft) : Agrees text ('[' :: rest) (d.verbDeclarationAt? text pos)
      (d.verbDeclaration ('[' :: rest)) := by
  rw [verbDeclarationAt?, verbDeclaration, h.slice?_end]
  dsimp only [Option.bind_eq_bind, Option.bind_some]
  cases hdeclares : declaresVerb ('[' :: rest) with
  | true =>
    rw [if_pos rfl, if_pos rfl]
    obtain ⟨d', ⟨hpos, hchars⟩ | ⟨names, next, behind, hpos, hchars, hnext, hsuffix, hshort⟩⟩ :=
      declarationsAt?_eq h d []
    · rw [hpos, hchars]
      refine ⟨text.utf8ByteSize, rfl, ?_⟩
      rw [List.drop_of_length_le (by simp)]
      exact .stop text
    · have hbehind :
          ('[' :: rest).drop (('[' :: rest).length - behind.length - 1 + 1) = behind := by
        have hlt := hshort hdeclares
        rw [Nat.sub_add_cancel (by omega)]
        exact (List.suffix_iff_eq_drop.mp hsuffix).symm
      rw [hpos, hchars]
      refine ⟨next, ?_, ?_⟩
      · dsimp only [Option.bind_some]
        rw [flushVerbAt?_eq, Option.bind_some]
        split <;> rfl
      · dsimp only
        split <;> exact hbehind.symm ▸ hnext
  | false =>
    have hnext : Text.At text (pos + 1) rest := h.next
    rw [if_neg Bool.false_ne_true, if_neg Bool.false_ne_true, reportAt?_eq h]
    cases hlength : Text.Marker.bracket.lengthAt? ('[' :: rest) with
    | none =>
      have hstop : Text.Marker.bracket.stop? text pos = none :=
        h.stop?_eq_none (by decide) (by decide) hlength
      rw [hstop]
      exact ⟨_, rfl, at_statementEnd hnext⟩
    | some n =>
      obtain ⟨inside, behind, hcs, rfl, hstop, hbehind⟩ :=
        h.exists_pair (by decide) (by decide) hlength
      refine ⟨pos + Text.byteLength inside + 2, ?_, ?_⟩
      · rw [Text.Marker.bracket, hstop]
        rfl
      · rw [hcs]
        simpa using hbehind

theorem closeScopeAt?_agrees {c : Char} (h : Text.At text pos (c :: cs)) (hc : c.utf8Size = 1)
    (d : Draft) : Agrees text (c :: cs) (d.closeScopeAt? text pos) (d.closeScope (c :: cs)) := by
  have hnext : Text.At text (pos + 1) cs := hc ▸ h.next
  rw [closeScopeAt?, closeScope, hnext.slice?_end, List.drop_one, List.tail_cons]
  dsimp only [Option.bind_eq_bind, Option.bind_some]
  rw [closeImpliedAt?_eq, Option.bind_some]
  generalize d.closeImplied = d
  rcases d.verb with _ | ⟨names, root, _ | ⟨s, outer⟩⟩
  case some.cons =>
    dsimp only
    rw [leaveAt?_eq, Option.bind_some]
    split
    next hopen => exact ⟨pos + 2, rfl, at_behindBrace hnext hopen⟩
    next => exact ⟨pos + 1, rfl, hnext⟩
  all_goals
    dsimp only
    split
    · rw [reportAt?_eq h]
      exact ⟨pos + 1, rfl, hnext⟩
    · rw [flushVerbAt?_eq]
      exact ⟨pos + 1, rfl, hnext⟩

theorem stepAt?_agrees {c : Char} {rest : List Char} (h : Text.At text pos (c :: rest))
    (d : Draft) : Agrees text (c :: rest) (d.stepAt? text pos c) (d.step c rest) := by
  rw [stepAt?, step]
  split_ifs with hspace htext hinstruction hcondition hverb hclose
  · exact ⟨_, rfl, h.next⟩
  · exact textAt?_agrees h d
  · exact instructionAt?_agrees h (hinstruction ▸ rfl) d
  · exact conditionAt?_agrees h (hcondition ▸ rfl) d
  · subst hverb
    exact verbDeclarationAt?_agrees h d
  · exact closeScopeAt?_agrees h (hclose ▸ rfl) d
  · refine ⟨statementEnd text (pos + c.utf8Size), ?_, at_statementEnd h.next⟩
    rw [reportAt?_eq h]
    rfl

/-! ### The whole body -/

/-- A statement takes at least the character that it starts with. -/
theorem stepAt?_advances {c : Char} {rest : List Char} (h : Text.At text pos (c :: rest))
    (d : Draft) : ∃ next, d.stepAt? text pos c = some ((d.step c rest).1, next) ∧
      Text.At text next (rest.drop (d.step c rest).2) ∧ pos < next := by
  obtain ⟨next, hfound, hnext⟩ := stepAt?_agrees h d
  rw [List.drop_succ_cons] at hnext
  refine ⟨next, hfound, hnext, ?_⟩
  have hbehind := congrArg Text.byteLength (List.take_append_drop (d.step c rest).2 rest)
  have hplace := h.place
  have hplace' := hnext.place
  have hsize := c.utf8Size_pos
  rw [Text.byteLength_append] at hbehind
  rw [Text.byteLength_cons] at hplace
  omega

/-- There are no more statements than bytes, and so the run comes to an end. -/
theorem runAt?_eq {statements : Nat} (h : Text.At text pos cs)
    (hbytes : Text.byteLength cs ≤ statements) (d : Draft) :
    runAt? text statements d pos = some (d.run cs) := by
  have hend {statements pos : Nat} (h : Text.At text pos []) (d : Draft) :
      runAt? text statements d pos = some (d.run []) := by
    have hpos : ¬ pos < text.utf8ByteSize := Nat.not_lt_of_le (Nat.le_of_eq h.place.symm)
    rw [runAt?.eq_def, if_neg hpos, run]
  -- each statement takes a byte or more, and so leaves fewer bytes than statements are allowed for
  induction statements generalizing d pos cs with
  | zero =>
    rcases cs with _ | ⟨c, rest⟩
    · exact hend h d
    · have hsize := c.utf8Size_pos
      rw [Text.byteLength_cons] at hbytes
      omega
  | succ more ih =>
    rcases cs with _ | ⟨c, rest⟩
    · exact hend h d
    have hsize := c.utf8Size_pos
    have hplace := h.place
    rw [Text.byteLength_cons] at hbytes hplace
    have hpos : pos < text.utf8ByteSize := by omega
    obtain ⟨next, hfound, hnext, hlt⟩ := stepAt?_advances h d
    have hfewer : Text.byteLength (rest.drop (d.step c rest).2) ≤ more := by
      have hplace' := hnext.place
      omega
    rw [runAt?.eq_def, if_pos hpos, h.slice?_end, run]
    dsimp only [Option.bind_eq_bind, Option.bind_some]
    rw [hfound, Option.bind_some]
    exact ih hnext hfewer _

end Draft

/-- A body is read the same by positions. From any position between two characters, and with
whatever was read before, the next statement leads to a later position between two characters;
so there are no more statements than bytes, and no cut ever fails. -/
theorem Page.ofBodyAt?_eq (page : Page) (body : String) (origin : Span) :
    (∀ (d : Draft) (pos : Nat), Text.Boundary body pos → pos < body.utf8ByteSize →
      ∃ c rest next, Text.At body pos (c :: rest) ∧
        d.stepAt? body pos c = some ((d.step c rest).1, next) ∧
        Text.At body next (rest.drop (d.step c rest).2) ∧
        pos < next ∧ next ≤ body.utf8ByteSize ∧ Text.Boundary body next) ∧
      page.ofBodyAt? body origin = some (page.ofBody body origin) := by
  refine ⟨fun d pos hboundary hpos => ?_, ?_⟩
  · obtain ⟨_ | ⟨c, rest⟩, h⟩ := hboundary.exists_at
    · exact absurd h.place (Nat.ne_of_lt hpos)
    · obtain ⟨next, hfound, hnext, hlt⟩ := Draft.stepAt?_advances h d
      exact ⟨c, rest, next, h, hfound, hnext, hlt, hnext.le, hnext.boundary⟩
  · have hrun := Draft.runAt?_eq (.start body) (Nat.le_of_eq (Text.utf8ByteSize_eq body).symm)
      { page, origin }
    rw [Page.ofBodyAt?, hrun]
    dsimp only [Option.bind_eq_bind, Option.bind_some]
    rw [Draft.finishAt?_eq]
    rfl

/-- A body of wide letters whose quotation mark is not closed, with a lone escape at its end. -/
def unclosedBody : String :=
  "[:é]\"ü\\"

/-- The wide letter in the declaration is not cut, and the quotation mark takes the rest. -/
theorem Page.ofBodyAt?_eq_unclosed :
    let page : Page := { name := "barn" }
    let d : Draft := { page, origin := ⟨0, 6⟩ }
    ¬ Text.Boundary unclosedBody 3 ∧ Text.Boundary unclosedBody 5 ∧
      5 < unclosedBody.utf8ByteSize ∧
      (∃ c rest next, Text.At unclosedBody 5 (c :: rest) ∧
        d.stepAt? unclosedBody 5 c = some ((d.step c rest).1, next) ∧ 5 < next ∧ next ≤ 9) ∧
      (page.ofBodyAt? unclosedBody ⟨0, 6⟩).map (·.2.map (·.message)) =
        some ["unterminated text block"] := by
  intro page d
  have hboundary : Text.Boundary unclosedBody 5 := by decide +kernel
  have hpos : 5 < unclosedBody.utf8ByteSize := by decide +kernel
  obtain ⟨c, rest, next, h, hstep, -, hlt, hle, -⟩ :=
    (Page.ofBodyAt?_eq page unclosedBody ⟨0, 6⟩).1 d 5 hboundary hpos
  exact ⟨by decide +kernel, hboundary, hpos, ⟨c, rest, next, h, hstep, hlt, hle⟩,
    by decide +kernel⟩

end Gamebook
