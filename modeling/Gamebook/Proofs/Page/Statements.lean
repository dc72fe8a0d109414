import Gamebook.Proofs.Page.Growth
import Gamebook.Proofs.Page.Settling
import Gamebook.Proofs.Text.Escaping

/-!
# What a statement does

What reading one statement may do to a draft is said here once. The draft settles, and then the
statement brings at most one thing (`Draft.Change`): a block for the verb at hand, a condition above
the verbs, the end of such a condition, or another verb (`Draft.stepped_step`). Whatever is to hold
of all drafts that reading comes to is shown for drafts that settle, and change by change.

How many characters a statement takes is told from the text (`Draft.reads_step`).
-/

namespace Gamebook

open Script

/-- What a statement does to the conditions above the verbs. -/
inductive Above where
  /-- A condition with a brace. -/
  | opens (expression : String)
  /-- A condition without one. -/
  | implies (expression : String)
  /-- The brace that ends the scope of a condition. -/
  | closes
  deriving DecidableEq, Repr

namespace Draft

/-! ### Parts of statements -/

/-- The conditions above the verbs that are in scope, oldest first. -/
def conditions (d : Draft) : List String :=
  d.pending.reverse.map (·.expression)

/-- The stored form of the condition that a text begins with. -/
def storedRun (rest : List Char) : String :=
  String.ofList (chainText '?' (rest.take (statementLength rest)))

/-- What a statement does to the conditions above the verbs. A condition stands above them if no
verb is at hand, or if it stands outside of all scopes of the verb, directly in front of another
declaration. A closing brace ends one of these conditions if no scope of the verb is open. -/
def above (d : Draft) (c : Char) (rest : List Char) : Option Above :=
  if c = '?' then
    let behind := rest.drop (statementLength rest)
    let explicit := behind.head? == some '\x7b'
    let behind := if explicit then behind.drop 1 else behind
    if d.closeImplied.verb.all fun v => v.inner.isEmpty && declaresVerb behind then
      some (if explicit then .opens (storedRun rest) else .implies (storedRun rest))
    else none
  else if c = '\x7d' then
    if d.closeImplied.verb.all (·.inner.isEmpty) && d.depth != 0 then some .closes else none
  else none

/-- The draft with a block in the innermost scope of a verb, and perhaps in a scope around the
children of that block, which is implied or not. -/
def put (d : Draft) (v : OpenVerb) (b : Block) (scope : Option Bool) : Draft :=
  { d with
    page := (d.page.insertChild v.scope b).1
    verb := some { v with
      inner := scope.elim v.inner fun implied => ⟨d.page.blocks.length, implied⟩ :: v.inner } }

/-- What becomes of a draft by a condition, which may stand directly in front of a declaration. -/
def ask (d : Draft) (expression : String) (explicit declares : Bool) : Draft :=
  match d.verb with
  | none => d.pend expression explicit
  | some v =>
    if v.inner.isEmpty && declares then d.flushVerb.pend expression explicit
    else d.put v (.script expression) (some !explicit)

/-- The innermost condition with a brace goes out of scope, with what came into scope behind it. -/
def closeAbove (d : Draft) : Draft :=
  { d with
    pending := (d.pending.dropWhile fun p => !(p.explicit && p.depth + 1 == d.depth)).drop 1
    depth := d.depth - 1 }

/-- A draft with a verb newly opened. -/
def opened (d : Draft) (names : List String) (guard : String) : Draft :=
  { d with
    page := (d.page.addBlock (.script guard)).1
    verb := some ⟨names, d.page.blocks.length, []⟩ }

/-- A condition is looked through, and read outside of the implied scopes. -/
theorem condition_eq (d : Draft) (rest : List Char) : d.condition ('?' :: rest) =
    let behind := rest.drop (statementLength rest)
    let explicit := behind.head? == some '\x7b'
    ((d.validate ('?' :: rest) (storedRun rest)).closeImplied.ask (storedRun rest) explicit
        (declaresVerb (if explicit then behind.drop 1 else behind)),
      if explicit then statementLength rest + 1 else statementLength rest) := by
  rw [condition]
  simp only [List.drop_succ_cons, List.drop_zero, ← storedRun.eq_1]
  generalize (d.validate ('?' :: rest) (storedRun rest)).closeImplied = e
  generalize declaresVerb _ = declares
  refine Prod.ext ?_ rfl
  dsimp only
  rw [ask]
  cases e.verb with
  | none => rfl
  | some v => rfl

/-- Looking through a condition has no part in what is left of the verb at hand. -/
theorem verb_closeImplied_validate (d : Draft) (near : List Char) (expression : String) :
    (d.validate near expression).closeImplied.verb = d.closeImplied.verb := by
  rw [verb_closeImplied, verb_closeImplied, (OnlyReports.validate d near expression).verb_eq]

/-- A block of the verb at hand without a scope of its own. -/
theorem put_none {d : Draft} {v : OpenVerb} (hv : d.verb = some v) (b : Block) :
    d.put v b none = (d.addBlock v b).1 := by
  rw [put, addBlock, Option.elim_none, ← hv]

theorem roots_put {d : Draft} {v : OpenVerb} (hv : d.verb = some v) (b : Block)
    (scope : Option Bool) : (d.put v b scope).roots = d.roots := by
  rw [roots, roots, hv]
  rfl

/-- The root of a verb is put in like a block below one that is not there. -/
theorem page_opened (d : Draft) (names : List String) (guard : String) :
    (d.opened names guard).page =
      (d.page.insertChild d.page.blocks.length (.script guard)).1 := by
  rw [Page.insertChild_length]
  rfl

/-! ### Changes -/

/-- Which block a statement puts into a verb, with a scope for its children or without one. -/
inductive Puts (d : Draft) : Char → List Char → Draft → OpenVerb → Block → Option Bool → Prop
  /-- A text. -/
  | text {rest : List Char} {e : Draft} {v : OpenVerb} (shown : String) :
      Puts d '"' rest e v (.text shown) none
  /-- An instruction, looked through. -/
  | instruction {rest : List Char} {e : Draft} {v : OpenVerb} {expression : String} :
      expression = String.ofList (chainText '!' (rest.take (statementLength rest))) →
      Settles (d.validate ('!' :: rest) expression) e →
      Puts d '!' rest e v (.script expression) none
  /-- A condition, looked through. -/
  | condition {rest : List Char} {e : Draft} {v : OpenVerb} (implied : Bool) :
      Settles (d.validate ('?' :: rest) (storedRun rest)) e →
      Puts d '?' rest e v (.script (storedRun rest)) (some implied)
  /-- Another branch, in the place of the scope that ends at the brace in front. -/
  | otherwise {rest : List Char} {e : Draft} {v : OpenVerb} (s : Scope) :
      d.closeImplied.verb = some { v with inner := s :: v.inner } →
      Puts d '\x7d' ('\x7b' :: rest) e v .otherwise (some false)

/-- What a statement brings to a draft that has settled, and what of it concerns the conditions
above the verbs. -/
inductive Change (d : Draft) : Char → List Char → Option Above → Draft → Draft → Prop
  /-- Nothing. -/
  | nothing {c : Char} {rest : List Char} {e : Draft} : Change d c rest none e e
  /-- A block for the verb at hand. -/
  | put {c : Char} {rest : List Char} {e : Draft} {v : OpenVerb} {b : Block} {scope : Option Bool} :
      e.verb = some v → Puts d c rest e v b scope → Change d c rest none e (e.put v b scope)
  /-- A condition above the verbs, looked through. -/
  | pend {rest : List Char} {e : Draft} (explicit : Bool) :
      Settles (d.validate ('?' :: rest) (storedRun rest)) e →
      Change d '?' rest (some (if explicit then .opens (storedRun rest)
        else .implies (storedRun rest))) e (e.pend (storedRun rest) explicit)
  /-- The end of a condition above the verbs. -/
  | close {rest : List Char} {e : Draft} : d.depth ≠ 0 →
      Change d '\x7d' rest (some .closes) e e.closeAbove
  /-- Another verb, under the conditions in scope. -/
  | opened {rest behind : List Char} {names : List String} {e : Draft} :
      (d.declarations [] ('[' :: rest)).2 = some (names, behind) → names ≠ [] → e.verb = none →
      Change d '[' rest none e (e.opened names (foldChains d.conditions))

/-- Only a condition that was looked through comes into scope. -/
theorem Change.mem_pending {d e d' : Draft} {c : Char} {rest : List Char} {a : Option Above}
    (h : Change d c rest a e d') {p : Pending} (hp : p ∈ d'.pending) : p ∈ e.pending ∨
      c = '?' ∧ p.expression = storedRun rest ∧
        Settles (d.validate ('?' :: rest) (storedRun rest)) e := by
  cases h with
  | nothing | put | opened => exact .inl hp
  | pend explicit hvalidate =>
    rcases List.mem_cons.mp hp with rfl | hp
    · exact .inr ⟨rfl, rfl, hvalidate⟩
    · exact .inl (List.mem_filter.mp hp).1
  | close => exact .inl ((List.dropWhile_sublist _).subset (List.mem_of_mem_drop hp))

/-- The scripts of a draft, and the one that it gets. -/
theorem Change.everyScript {P : String → Prop} {d e d' : Draft} {c : Char} {rest : List Char}
    {a : Option Above} (h : Change d c rest a e d') (he : e.page.EveryScript P)
    (hputs : ∀ {v b scope}, Puts d c rest e v b scope → b.isExecuted → P b.expression)
    (hguard : P (foldChains d.conditions)) : d'.page.EveryScript P := by
  cases h with
  | nothing | pend | close => exact he
  | put _ h => exact he.insertChild _ (hputs h)
  | opened => exact he.addBlock fun _ => hguard

/-- Whether a statement may lead from one draft to another: the draft settles, and then changes. -/
def Stepped (d : Draft) (c : Char) (rest : List Char) (a : Option Above) (d' : Draft) : Prop :=
  ∃ e, Settles d e ∧ Change d c rest a e d'

namespace Stepped

variable {d e : Draft} {c : Char} {rest : List Char}

theorem settle (h : Settles d e) : Stepped d c rest none e :=
  ⟨e, h, .nothing⟩

theorem of_onlyReports (h : OnlyReports d e) : Stepped d c rest none e :=
  settle (.of_onlyReports h)

end Stepped

theorem stepped_text (d : Draft) (rest : List Char) :
    Stepped d '"' rest none (d.text ('"' :: rest)).1 := by
  rw [Draft.text]
  split
  · exact .of_onlyReports (.report d ('"' :: rest) .unterminatedText)
  · dsimp only
    split
    next v hv =>
      rw [← put_none hv]
      exact ⟨d, .refl d, .put hv (.text _)⟩
    next => exact .of_onlyReports (.report d ('"' :: rest) .textOutsideVerb)

theorem stepped_instruction (d : Draft) (rest : List Char) :
    Stepped d '!' rest none (d.instruction ('!' :: rest)).1 := by
  rw [Draft.instruction]
  dsimp only
  rw [List.drop_succ_cons, List.drop_zero]
  generalize hstored : String.ofList (chainText '!' (rest.take (statementLength rest))) = expression
  have hvalidate := OnlyReports.validate d ('!' :: rest) expression
  split
  next v hv =>
    rw [← put_none hv]
    exact ⟨_, .of_onlyReports hvalidate, .put hv (.instruction hstored.symm (.refl _))⟩
  next => exact .of_onlyReports (hvalidate.trans (.report _ ('!' :: rest) .instructionOutsideVerb))

theorem stepped_condition (d : Draft) (rest : List Char) :
    Stepped d '?' rest (d.above '?' rest) (d.condition ('?' :: rest)).1 := by
  have hvalidate := Settles.of_onlyReports (.validate d ('?' :: rest) (storedRun rest))
  have hcloses := Settles.closeImplied (d.validate ('?' :: rest) (storedRun rest))
  rw [above, if_pos rfl, condition_eq,
    ← verb_closeImplied_validate d ('?' :: rest) (storedRun rest)]
  dsimp only
  generalize (d.validate ('?' :: rest) (storedRun rest)).closeImplied = e at hcloses ⊢
  generalize (List.head? _ == some '\x7b') = explicit
  generalize declaresVerb _ = declares
  rw [ask]
  cases hv : e.verb with
  | none => exact ⟨e, hvalidate.trans hcloses, .pend explicit hcloses⟩
  | some v =>
    dsimp only [Option.all_some]
    split
    · have hflush := hcloses.trans (.flushVerb e)
      exact ⟨_, hvalidate.trans hflush, .pend explicit hflush⟩
    · exact ⟨e, hvalidate.trans hcloses, .put hv (.condition _ hcloses)⟩

/-- A text that declares a name begins with a declaration. -/
theorem eq_of_declarations {d : Draft} {cs behind : List Char} {names : List String}
    (hread : (d.declarations [] cs).2 = some (names, behind)) (hne : names ≠ []) :
    ∃ rest, cs = '[' :: ':' :: rest := by
  refine Classical.byContradiction fun hcs => ?_
  rw [declarations_eq fun rest hrest => hcs ⟨rest, hrest⟩] at hread
  cases hread
  exact hne rfl

/-- A declaration with a name opens a verb under the conditions in scope. -/
theorem verbDeclaration_opens {d : Draft} {cs behind : List Char} {names : List String}
    (hread : (d.declarations [] cs).2 = some (names, behind)) (hne : names ≠ []) :
    ∃ e, Settles d e ∧ e.verb = none ∧
      (d.verbDeclaration cs).1 = e.opened names (foldChains d.conditions) := by
  obtain ⟨rest, rfl⟩ := eq_of_declarations hread hne
  have hsettles := (Settles.of_onlyReports (.declarations d [] ('[' :: ':' :: rest))).trans
    (.flushVerb _)
  refine ⟨_, hsettles, verb_flushVerb _, ?_⟩
  have hempty : names.isEmpty = false := by simpa using hne
  have hdeclares : declaresVerb ('[' :: ':' :: rest) = true := rfl
  have hpair : d.declarations [] ('[' :: ':' :: rest) =
      ((d.declarations [] ('[' :: ':' :: rest)).1, some (names, behind)) := Prod.ext rfl hread
  rw [verbDeclaration, if_pos hdeclares, hpair, conditions, ← hsettles.pending]
  dsimp only
  rw [hempty, if_neg Bool.false_ne_true]
  rfl

theorem stepped_verbDeclaration (d : Draft) (rest : List Char) :
    Stepped d '[' rest none (d.verbDeclaration ('[' :: rest)).1 := by
  have hreports := OnlyReports.declarations d [] ('[' :: rest)
  rcases hread : d.declarations [] ('[' :: rest) with ⟨e, _ | ⟨names, behind⟩⟩
  · rw [hread] at hreports
    rw [verbDeclaration, hread]
    split
    · exact .of_onlyReports hreports
    · exact .of_onlyReports (.report d ('[' :: rest) .verbExpected)
  · by_cases hnames : names = []
    · rw [hread] at hreports
      rw [verbDeclaration, hread, hnames]
      split
      · exact .settle ((Settles.of_onlyReports hreports).trans (.flushVerb e))
      · exact .of_onlyReports (.report d ('[' :: rest) .verbExpected)
    · have hfound : (d.declarations [] ('[' :: rest)).2 = some (names, behind) := by rw [hread]
      obtain ⟨e', hsettles, hnone, heq⟩ := verbDeclaration_opens hfound hnames
      rw [heq]
      exact ⟨e', hsettles, .opened hfound hnames hnone⟩

theorem stepped_closeScope (d : Draft) (rest : List Char) :
    Stepped d '\x7d' rest (d.above '\x7d' rest) (d.closeScope ('\x7d' :: rest)).1 := by
  have hcloses := Settles.closeImplied d
  rw [above, if_neg (by decide), if_pos rfl, closeScope]
  generalize heq : d.closeImplied = e at hcloses ⊢
  generalize hfound : (if (e.verb.all (·.inner.isEmpty) && d.depth != 0) = true then
    some Above.closes else none) = a
  dsimp only
  split
  next names root s outer hv =>
    -- the scope ends, whatever comes behind it
    have hleave := Settles.of_onlyReports (.leave e s)
    have hverb : (e.leave s).verb = some ⟨names, root, s :: outer⟩ :=
      (OnlyReports.leave e s).verb_eq.trans hv
    have hends := hcloses.trans (hleave.trans (.setInner hverb (List.suffix_cons s outer)))
    obtain rfl : none = a := by
      rw [← hfound, hv]
      rfl
    split
    next hbehind =>
      obtain ⟨behind, rfl⟩ := List.head?_eq_some_iff.mp (beq_iff_eq.mp hbehind)
      exact ⟨_, hends, .put rfl (.otherwise s (heq ▸ hv))⟩
    next => exact .settle hends
  next hnone =>
    have hinner : e.verb.all (·.inner.isEmpty) = true := by
      rcases hv : e.verb with _ | ⟨names, root, _ | ⟨s, outer⟩⟩
      · rfl
      · rfl
      · exact absurd hv (hnone names root s outer)
    rw [hinner, Bool.true_and, ← hcloses.depth] at hfound
    split
    next hzero =>
      rw [hzero] at hfound
      obtain rfl : none = a := hfound
      exact .settle (hcloses.trans (.of_onlyReports (.report e ('\x7d' :: rest) .unmatchedBrace)))
    next hzero =>
      rw [if_pos (bne_iff_ne.mpr hzero)] at hfound
      obtain rfl := hfound
      exact ⟨_, hcloses.trans (.flushVerb e), .close (hcloses.depth ▸ hzero)⟩

/-- Whatever statement is read, the draft settles and then changes in one way at most. -/
theorem stepped_step (d : Draft) (c : Char) (rest : List Char) :
    Stepped d c rest (d.above c rest) (d.step c rest).1 := by
  have habove (hcondition : c ≠ '?') (hbrace : c ≠ '\x7d') : d.above c rest = none := by
    rw [above, if_neg hcondition, if_neg hbrace]
  rw [step]
  split_ifs with hspace htext hinstruction hcondition hverb hclose
  · rw [habove ?_ ?_]
    · exact .settle (.refl d)
    · rintro rfl
      exact absurd hspace (by decide)
    · rintro rfl
      exact absurd hspace (by decide)
  · subst htext
    exact stepped_text d rest
  · subst hinstruction
    exact stepped_instruction d rest
  · subst hcondition
    exact stepped_condition d rest
  · subst hverb
    exact stepped_verbDeclaration d rest
  · subst hclose
    exact stepped_closeScope d rest
  · rw [habove hcondition hclose]
    exact .of_onlyReports (.report d (c :: rest) (.unexpectedCharacter c))

/-! ### How far a statement reaches -/

/-- How many characters a statement may take behind its first one. -/
inductive Reads (d : Draft) : Char → List Char → Nat → Prop
  /-- None, behind a blank or a brace. -/
  | none {c : Char} {rest : List Char} : c ≠ '\\' → Reads d c rest 0
  /-- Those in front of the next statement. -/
  | run {c : Char} {rest : List Char} : Reads d c rest (statementLength rest)
  /-- All there are, if a text or a declaration is not closed. -/
  | all {c : Char} {rest : List Char} : c = '"' ∨ c = '[' → Reads d c rest rest.length
  /-- Those of a quoted text. -/
  | text {rest : List Char} {n : Nat} : Text.findClose '"' '"' 0 rest = some n → Reads d '"' rest n
  /-- Those in brackets that declare no verb. -/
  | bracket {rest : List Char} {n : Nat} : Text.findClose '[' ']' 0 rest = some n →
      Reads d '[' rest n
  /-- Those of the names of a verb. -/
  | names {rest behind : List Char} {names : List String} :
      (d.declarations [] ('[' :: rest)).2 = some (names, behind) →
      Reads d '[' rest (rest.length - behind.length)
  /-- The brace that opens the scope of a condition or of another branch, and those in front. -/
  | brace {c : Char} {rest behind : List Char} {n : Nat} : c ≠ '\\' →
      n = 0 ∨ n = statementLength rest → rest.drop n = '\x7b' :: behind → Reads d c rest (n + 1)

theorem reads_text (d : Draft) (rest : List Char) :
    Reads d '"' rest (d.text ('"' :: rest)).2 := by
  rw [Draft.text, Text.Marker.textBlock, Text.Marker.lengthAt?_paired]
  cases hclose : Text.findClose '"' '"' 0 rest with
  | none => exact .all (.inl rfl)
  | some n => exact .text hclose

theorem reads_condition (d : Draft) (rest : List Char) :
    Reads d '?' rest (d.condition ('?' :: rest)).2 := by
  rw [condition_eq]
  dsimp only
  split
  next hbrace =>
    obtain ⟨behind, hbehind⟩ := List.head?_eq_some_iff.mp (eq_of_beq hbrace)
    exact .brace (by decide) (.inr rfl) hbehind
  next => exact .run

theorem reads_verbDeclaration (d : Draft) (rest : List Char) :
    Reads d '[' rest (d.verbDeclaration ('[' :: rest)).2 := by
  rw [verbDeclaration]
  split
  · split
    next d' hread => exact .all (.inr rfl)
    next d' names behind hread =>
      have hlength : ('[' :: rest).length - behind.length - 1 = rest.length - behind.length := by
        rw [List.length_cons]
        omega
      dsimp only
      rw [hlength]
      split
      · exact .names (congrArg Prod.snd hread)
      · exact .names (congrArg Prod.snd hread)
  · dsimp only
    rw [Text.Marker.bracket, Text.Marker.lengthAt?_paired]
    cases hclose : Text.findClose '[' ']' 0 rest with
    | none => exact .run
    | some n => exact .bracket hclose

theorem reads_closeScope (d : Draft) (rest : List Char) :
    Reads d '\x7d' rest (d.closeScope ('\x7d' :: rest)).2 := by
  have hbrace : '\x7d' ≠ '\\' := by decide
  rw [closeScope]
  dsimp only
  split
  · split
    next hbehind =>
      obtain ⟨behind, rfl⟩ := List.head?_eq_some_iff.mp (eq_of_beq hbehind)
      exact .brace hbrace (.inl rfl) rfl
    · exact .none hbrace
  · split
    · exact .none hbrace
    · exact .none hbrace

/-- Whatever statement is read, no more is taken. -/
theorem reads_step (d : Draft) (c : Char) (rest : List Char) :
    Reads d c rest (d.step c rest).2 := by
  rw [step]
  split_ifs with hspace htext hinstruction hcondition hverb hclose
  · refine .none ?_
    rintro rfl
    exact absurd hspace (by decide)
  · subst htext
    exact reads_text d rest
  · exact .run
  · subst hcondition
    exact reads_condition d rest
  · subst hverb
    exact reads_verbDeclaration d rest
  · subst hclose
    exact reads_closeScope d rest
  · exact .run

/-! ### Reading, statement by statement -/

/-- The drafts that reading a text comes to, each with the text that is left. -/
inductive Reached (first : Draft) (body : List Char) : Draft → List Char → Prop
  /-- Nothing is read yet. -/
  | start : Reached first body first body
  /-- One more statement is read. -/
  | step {d : Draft} {c : Char} {rest : List Char} : Reached first body d (c :: rest) →
      Reached first body (d.step c rest).1 (rest.drop (d.step c rest).2)

/-- The draft that some statements lead to, with the text that is left. -/
def after : Nat → Draft → List Char → Draft × List Char
  | 0, d, cs => (d, cs)
  | _ + 1, d, [] => (d, [])
  | n + 1, d, c :: rest => after n (d.step c rest).1 (rest.drop (d.step c rest).2)

namespace Reached

variable {first d : Draft} {body cs : List Char}

/-- Reading all statements comes to the end of the text. -/
theorem run (h : Reached first body d cs) : Reached first body (d.run cs) [] := by
  induction d, cs using Draft.run.induct with
  | case1 d =>
    rw [Draft.run]
    exact h
  | case2 d c rest d' n hstep ih =>
    rw [Draft.run, hstep]
    have hnext := h.step
    rw [hstep] at hnext
    exact ih hnext

/-- Reading comes to what some statements lead to. -/
theorem after (n : Nat) (h : Reached first body d cs) :
    Reached first body (Draft.after n d cs).1 (Draft.after n d cs).2 := by
  induction n generalizing d cs with
  | zero => exact h
  | succ n ih =>
    cases cs with
    | nil => exact h
    | cons c rest => exact ih h.step

/-- Reading goes on to the same end from each draft that it comes to. -/
theorem run_eq (h : Reached first body d cs) : first.run body = d.run cs := by
  induction h with
  | start => rfl
  | @step d c rest _ ih =>
    rw [ih, Draft.run]

theorem toEnd (h : Reached first body d cs) : Reached d cs (first.run body) [] := by
  rw [h.run_eq]
  exact Reached.start.run

end Reached

/-- No blocks are taken away. -/
theorem Change.extends {d e d' : Draft} {c : Char} {rest : List Char} {a : Option Above}
    (h : Change d c rest a e d') : e.page.Extends d'.page := by
  cases h with
  | nothing | pend | close => exact .of_blocks_eq rfl
  | put => exact .insertChild _ _ _
  | opened => exact .addBlock _ _

/-- What holds of the first draft, and is kept by drafts that settle and by every change, holds of
all drafts that reading comes to. -/
theorem Reached.kept {P : Draft → Prop} {first d : Draft} {body cs : List Char}
    (h : Reached first body d cs) (hstart : P first)
    (hsettle : ∀ {d e}, P d → Settles d e → P e)
    (hchange : ∀ {d c rest a e d'}, Reached first body d (c :: rest) → P d → Settles d e →
      P e → Change d c rest a e d' → P d') : P d := by
  induction h with
  | start => exact hstart
  | @step d c rest hd ih =>
    obtain ⟨e, hsettles, hstep⟩ := stepped_step d c rest
    exact hchange hd ih hsettles (hsettle ih hsettles) hstep

theorem Reached.extends {first d : Draft} {body cs : List Char} (h : Reached first body d cs) :
    first.page.Extends d.page :=
  h.kept (P := fun d => first.page.Extends d.page) (.of_blocks_eq rfl)
    (fun hd hsettles => hd.trans (.of_blocks_eq hsettles.blocks))
    fun _ _ _ he hchange => he.trans hchange.extends

end Draft

/-! ### Pages -/

namespace Page

variable {page : Page} (body : String) (origin : Span)

/-- The end of a body leaves the blocks as they are. -/
theorem blocks_ofBody : (page.ofBody body origin).1.blocks =
    (Draft.run { page, origin } body.toList).page.blocks :=
  (Draft.Settles.finish _).blocks

/-- The page of a body has all blocks that reading comes to. -/
theorem extends_ofBody {d : Draft} {cs : List Char}
    (h : Draft.Reached { page, origin } body.toList d cs) :
    d.page.Extends (page.ofBody body origin).1 :=
  h.toEnd.extends.trans (.of_blocks_eq (blocks_ofBody body origin))

end Page

end Gamebook
