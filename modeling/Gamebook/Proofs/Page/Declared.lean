import Gamebook.Proofs.Page.Statements
import Gamebook.Proofs.Script.Folding

/-!
# What stands above a verb

Reading a body comes from one draft to the next. A verb is declared at one of these drafts, and the
conditions that are in scope there are the ones that guard it: the script at its root is made of
just these conditions, and keeps being so while the rest of the body is read.

A condition in scope is stored in a form that more can be joined to. The one exception would be a
condition that ends with the body, in the middle of an escape; but no verb is declared behind it.
-/

namespace Gamebook

open Script

namespace Draft

/-! ### Stored conditions -/

/-- A condition that another statement follows is stored so that more can be joined to it. -/
theorem storedCondition_storedRun {rest : List Char} {n : Nat} (hn : statementLength rest ≤ n)
    (hrest : rest.drop n ≠ []) : StoredCondition (storedRun rest).toList := by
  rw [storedRun, String.toList_ofList]
  refine storedCondition_chainText ?_
  cases hfind : Text.find (Text.startsWithOneOf statementStarts) rest with
  | none =>
    rw [statementLength, hfind, Option.getD_none] at hn
    exact absurd (List.drop_of_length_le hn) hrest
  | some k =>
    rw [statementLength, hfind, Option.getD_some]
    exact Text.unopened_take_of_find (fun cs => rfl) hfind

/-- A condition takes what stands in front of the next statement, at least. -/
theorem statementLength_le_step (d : Draft) {c : Char} (hc : c = '?') (rest : List Char) :
    statementLength rest ≤ (d.step c rest).2 := by
  subst hc
  have hstep : d.step '?' rest = d.condition ('?' :: rest) := rfl
  rw [hstep, condition_eq]
  dsimp only
  split <;> omega

end Draft

/-! ### Declarations -/

/-- Whether a body declares a verb with some names at a root, with some conditions in scope. -/
def Page.Declares (page : Page) (body : String) (origin : Span) (names : List String) (root : Nat)
    (conditions : List String) : Prop :=
  ∃ d cs behind, Draft.Reached { page, origin } body.toList d cs ∧
    (d.declarations [] cs).2 = some (names, behind) ∧ names ≠ [] ∧
    root = d.page.blocks.length ∧ conditions = d.conditions

namespace Draft

/-- Reading on from a text comes to what is reached behind its first statement. -/
theorem Reached.behind {d d' : Draft} {c : Char} {rest cs : List Char}
    (h : Reached d (c :: rest) d' cs) :
    (d' = d ∧ cs = c :: rest) ∨ Reached (d.step c rest).1 (rest.drop (d.step c rest).2) d' cs := by
  induction h with
  | start => exact .inl ⟨rfl, rfl⟩
  | @step e c' rest' he ih =>
    rcases ih with ⟨rfl, heq⟩ | ih
    · obtain ⟨rfl, rfl⟩ := List.cons.inj heq
      exact .inr .start
    · exact .inr ih.step

/-- Of two drafts that reading comes to, one is on the way to the other. -/
theorem Reached.comparable {first d d' : Draft} {body cs cs' : List Char}
    (h : Reached first body d cs) (h' : Reached first body d' cs') :
    Reached d cs d' cs' ∨ Reached d' cs' d cs := by
  induction h with
  | start => exact .inl h'
  | @step e c rest he ih =>
    rcases ih with ih | ih
    · rcases ih.behind with ⟨rfl, rfl⟩ | ih
      · exact .inr (.step .start)
      · exact .inl ih
    · exact .inr ih.step

/-- A declaration with a name adds the root of its verb to the blocks. -/
theorem length_step_of_declarations {d : Draft} {cs behind : List Char} {names : List String}
    (hread : (d.declarations [] cs).2 = some (names, behind)) (hne : names ≠ []) :
    ∃ c rest, cs = c :: rest ∧
      (d.step c rest).1.page.blocks.length = d.page.blocks.length + 1 := by
  obtain ⟨rest, rfl⟩ := eq_of_declarations hread hne
  obtain ⟨e, hsettles, -, hopened⟩ := verbDeclaration_opens hread hne
  have hstep : d.step '[' (':' :: rest) = d.verbDeclaration ('[' :: ':' :: rest) := rfl
  refine ⟨'[', ':' :: rest, rfl, ?_⟩
  rw [hstep, hopened, opened, Page.addBlock, List.length_append, hsettles.blocks]
  rfl

end Draft

/-- The root of a verb tells which declaration it comes from, and so what was in scope there. -/
theorem Page.Declares.unique {page : Page} {body : String} {origin : Span}
    {names names' : List String} {root : Nat} {conditions conditions' : List String}
    (h : page.Declares body origin names root conditions)
    (h' : page.Declares body origin names' root conditions') :
    names = names' ∧ conditions = conditions' := by
  -- behind a declaration there are more blocks than at its root
  have hlater : ∀ {d d' : Draft} {cs cs' behind : List Char} {names : List String},
      Draft.Reached d cs d' cs' → (d.declarations [] cs).2 = some (names, behind) → names ≠ [] →
      d.page.blocks.length = d'.page.blocks.length → d' = d ∧ cs' = cs := by
    intro d d' cs cs' behind names hreached hread hne hlength
    obtain ⟨c, rest, rfl, hstep⟩ := Draft.length_step_of_declarations hread hne
    refine hreached.behind.resolve_right fun hbehind => ?_
    have hle := hbehind.extends.length_le
    omega
  obtain ⟨d, cs, behind, hd, hread, hne, hroot, rfl⟩ := h
  obtain ⟨d', cs', behind', hd', hread', hne', hroot', rfl⟩ := h'
  have hsame : d' = d ∧ cs' = cs := by
    rcases hd.comparable hd' with hto | hto
    · exact hlater hto hread hne (hroot.symm.trans hroot')
    · obtain ⟨rfl, rfl⟩ := hlater hto hread' hne' (hroot'.symm.trans hroot)
      exact ⟨rfl, rfl⟩
  obtain ⟨rfl, rfl⟩ := hsame
  rw [hread] at hread'
  cases hread'
  exact ⟨rfl, rfl⟩

/-- Whether the script at a place of a page is made of some stored conditions. -/
def Page.Guards (page : Page) (root : Nat) (conditions : List String) : Prop :=
  (∃ b, page.block? root = some b ∧ b.expression = foldChains conditions) ∧
    ∀ t ∈ conditions, StoredCondition t.toList

/-- Whether a body declares a verb at a root, where a page has the conditions in scope. -/
def Page.DeclaresOn (page : Page) (body : String) (origin : Span) (p : Page) (names : List String)
    (root : Nat) : Prop :=
  ∃ conditions, page.Declares body origin names root conditions ∧ p.Guards root conditions

/-- A script stays what it is while a page grows. -/
theorem Page.DeclaresOn.extend {page p q : Page} {body : String} {origin : Span}
    {names : List String} {root : Nat} (h : page.DeclaresOn body origin p names root)
    (hextends : p.Extends q) : page.DeclaresOn body origin q names root := by
  obtain ⟨conditions, hdeclares, ⟨b, hb, hguard⟩, hstored⟩ := h
  obtain ⟨b', hb', -, heq, -⟩ := hextends root b hb
  exact ⟨conditions, hdeclares, ⟨b', hb', heq.trans hguard⟩, hstored⟩

/-- What holds of every draft that reading a body comes to: its verbs, declared or still open, have
at their roots the conditions they were declared under. -/
structure Draft.Guarded (page : Page) (body : String) (origin : Span) (d : Draft)
    (cs : List Char) : Prop where
  name : d.page.name = page.name
  defaults : d.page.defaults = page.defaults
  /-- What is in scope can be joined to, if anything is left that may be joined to it. -/
  pending : cs ≠ [] → ∀ p ∈ d.pending, StoredCondition p.expression.toList
  verb : ∀ o, d.verb = some o → page.DeclaresOn body origin d.page o.names o.root
  verbs : ∀ v ∈ d.page.verbs, v ∈ page.verbs ∨ page.DeclaresOn body origin d.page v.names v.root

namespace Draft

variable {page : Page} {body : String} {origin : Span} {d e d' : Draft}

/-- Drafts that settle stay guarded. -/
theorem Guarded.settle {cs : List Char} (h : Guarded page body origin d cs)
    (hsettles : Settles d e) : Guarded page body origin e cs := by
  have hextends := Page.Extends.of_blocks_eq hsettles.blocks
  have hopen : ∀ o, d.verb = some o → page.DeclaresOn body origin e.page o.names o.root :=
    fun o ho => (h.verb o ho).extend hextends
  refine ⟨hsettles.name.trans h.name, hsettles.defaults.trans h.defaults,
    fun hcs => hsettles.pending ▸ h.pending hcs, fun o' ho' => ?_, fun v hv => ?_⟩
  · obtain ⟨o, ho, hnames, hroot, -⟩ := hsettles.verb o' ho'
    rw [hnames, hroot]
    exact hopen o ho
  · rcases hsettles.verbs v hv with hv | ⟨o, ho, hnames, hroot⟩
    · exact (h.verbs v hv).imp_right (·.extend hextends)
    · rw [hnames, hroot]
      exact .inr (hopen o ho)

/-- A statement opens a verb under the conditions in scope, and a condition that it takes into scope
can be joined to. -/
theorem Guarded.step {c : Char} {rest : List Char} (h : Guarded page body origin d (c :: rest))
    (hd : Reached { page, origin } body.toList d (c :: rest)) :
    Guarded page body origin (d.step c rest).1 (rest.drop (d.step c rest).2) := by
  have hlength (hc : c = '?') := statementLength_le_step d hc rest
  obtain ⟨e, hsettles, hchange⟩ := stepped_step d c rest
  have he := h.settle hsettles
  have hstored := he.pending (List.cons_ne_nil c rest)
  have hextends := hchange.extends
  generalize (d.step c rest).1 = d', (d.step c rest).2 = n, d.above c rest = a at *
  have hpending : rest.drop n ≠ [] → ∀ p ∈ d'.pending, StoredCondition p.expression.toList := by
    intro hcs p hp
    rcases hchange.mem_pending hp with hp | ⟨hc, heq, -⟩
    · exact hstored p hp
    · rw [heq]
      exact storedCondition_storedRun (hlength hc) hcs
  have hverbs : ∀ v ∈ e.page.verbs,
      v ∈ page.verbs ∨ page.DeclaresOn body origin d'.page v.names v.root :=
    fun v hv => (he.verbs v hv).imp_right (·.extend hextends)
  cases hchange with
  | nothing | pend | close => exact ⟨he.name, he.defaults, hpending, he.verb, he.verbs⟩
  | put hv =>
    refine ⟨he.name, he.defaults, hpending, ?_, hverbs⟩
    rintro o ⟨⟩
    exact (he.verb _ hv).extend hextends
  | @opened rest behind names e hread hnames =>
    refine ⟨he.name, he.defaults, hpending, ?_, hverbs⟩
    rintro o ⟨⟩
    refine ⟨d.conditions, ⟨d, _, behind, hd, hread, hnames, congrArg _ hsettles.blocks, rfl⟩,
      ⟨.script (foldChains d.conditions), List.getElem?_concat_length, rfl⟩, fun t ht => ?_⟩
    obtain ⟨p, hp, rfl⟩ := List.mem_map.mp ht
    exact hstored p (hsettles.pending ▸ List.mem_reverse.mp hp)

/-- Every draft that reading comes to is guarded. -/
theorem Reached.guarded {cs : List Char} (h : Reached { page, origin } body.toList d cs) :
    Guarded page body origin d cs := by
  induction h with
  | start =>
    refine ⟨rfl, rfl, fun _ p hp => ?_, fun o ho => ?_, fun v => .inl⟩
    · cases hp
    · cases ho
  | step hd ih => exact ih.step hd

end Draft

/-! ### Pages -/

/-- The draft that a body ends with is guarded. -/
theorem Page.guarded_finish (page : Page) (body : String) (origin : Span) :
    Draft.Guarded page body origin (Draft.run { page, origin } body.toList).finish [] :=
  Draft.Reached.start.run.guarded.settle (.finish _)

/-- The name of a page is not touched by its body. -/
theorem Page.name_ofBody (page : Page) (body : String) (origin : Span) :
    (page.ofBody body origin).1.name = page.name :=
  (page.guarded_finish body origin).name

/-- The value that a page gives to its noun is not touched by its body. -/
theorem Page.defaults_ofBody (page : Page) (body : String) (origin : Span) :
    (page.ofBody body origin).1.defaults = page.defaults :=
  (page.guarded_finish body origin).defaults

/-- A verb that a body adds to a page is declared in it, and guarded by the conditions in scope
there. -/
theorem Page.guards_ofBody {page : Page} {body : String} {origin : Span} {v : Verb}
    (hv : v ∈ (page.ofBody body origin).1.verbs) (hnew : v ∉ page.verbs) :
    ∃ conditions, page.Declares body origin v.names v.root conditions ∧
      (page.ofBody body origin).1.Guards v.root conditions :=
  ((page.guarded_finish body origin).verbs v hv).resolve_left hnew

end Gamebook
