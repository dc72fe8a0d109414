import Gamebook.Proofs.Page.Wording
import Gamebook.Proofs.Play.Effects
import Gamebook.Proofs.Script.Words
import Gamebook.Proofs.Session.Wording

/-!
# Texts in runs

If the texts of a story are of a robust kind, and those that the book answers with, then a run
leaves only texts of that kind in the session. This goes through evaluation part by part: each part
keeps what is known of the session, and the value of an expression has atoms of the kind, as they
come from the script, from the session, or from the book (`Run.Says`). What a story brings in are
the names of its nouns and verbs, the atoms of the values that it gives, and those that its scripts
spell (`Story.Says`); whether the texts that it shows are of the kind does not matter.
-/

namespace Gamebook

open Script

/-! ### What stories and books bring in -/

/-- What is known of the texts of a page that may get into a session. -/
structure Page.Says (Q : String → Prop) (p : Page) : Prop where
  name : Q p.name
  names : ∀ v ∈ p.verbs, ∀ name ∈ v.names, Q name
  defaults : p.defaults.Says Q
  scripts : p.Feedless
  guards : ∀ v ∈ p.verbs, ∀ b, p.block? v.root = some b → Text.Feedless b.expression.toList

/-- What is known of the texts of a story that may get into a session. -/
def Story.Says (Q : String → Prop) (s : Story) : Prop :=
  ∀ p ∈ s.pages, p.Says Q

/-- What is known of the answers of a book. -/
structure Book.Says {σ : Type} (Q : String → Prop) (b : Book σ) : Prop where
  books : ∀ host, ∀ title ∈ b.books host, Q title
  sessions : ∀ host, ∀ name ∈ b.sessions host, Q name
  load : ∀ name host t host', b.load name host = (some t, host') → t.Says Q
  input : ∀ prompt host line host', b.input prompt host = (some line, host') →
    Q (.ofList (Text.trim line.toList))

/-! ### Forests -/

/-- What holds of all blocks of a forest. -/
def Forest.All (P : Block → Prop) : Forest → Prop
  | .nil => True
  | .node b children rest => P b ∧ children.All P ∧ rest.All P

/-- The blocks of a forest are those of its page. -/
theorem Page.all_forestFrom {P : Block → Prop} {p : Page} (h : ∀ b ∈ p.blocks, P b)
    (parent : Nat) (ids : List Nat) : (p.forestFrom parent ids).All P := by
  induction hn : p.blocks.length - parent using Nat.strong_induction_on generalizing parent ids with
  | _ n ih =>
    rw [forestFrom]
    induction ids with
    | nil => trivial
    | cons id ids ihIds =>
      rw [List.foldr_cons]
      split
      next hlt =>
        split
        next => exact ihIds
        next b hb =>
          have hid := (List.getElem?_eq_some_iff.mp hb).1
          exact ⟨h b (List.mem_of_getElem? hb), ih _ (by omega) id b.children rfl, ihIds⟩
      next => exact ihIds

/-- The blocks below another one are blocks of the page. -/
theorem Page.all_below {P : Block → Prop} {p : Page} (h : ∀ b ∈ p.blocks, P b) (id : Nat) :
    (p.below id).All P := by
  rw [below]
  split
  · exact all_forestFrom h _ _
  · trivial

/-! ### Parts of runs -/

variable {σ α β : Type} {Q : String → Prop}

/-- A part of a run that leaves texts of a kind in the session if it finds such, and then has an
answer of which something is known. -/
def Run.Says (Q : String → Prop) (P : α → Prop) (m : Run σ α) : Prop :=
  ∀ s : Stage σ, s.session.Says Q → P (m.run s).1 ∧ (m.run s).2.session.Says Q

namespace Run.Says

variable {P : α → Prop} {R : β → Prop} {m : Run σ α} {f : α → Run σ β}

theorem pure {a : α} (ha : P a) : (Pure.pure a : Run σ α).Says Q P :=
  fun _ hs => ⟨ha, hs⟩

/-- What is known of the answer of the first part is known in the second. -/
theorem bind (hm : m.Says Q P) (hf : ∀ a, P a → (f a).Says Q R) : (m >>= f).Says Q R := by
  intro s hs
  obtain ⟨ha, hs⟩ := hm s hs
  exact hf _ ha _ hs

/-- Computing something of the answer of a part. -/
theorem map {g : α → β} (hm : m.Says Q P) (hg : ∀ a, P a → R (g a)) :
    (m >>= fun a => Pure.pure (g a)).Says Q R :=
  hm.bind fun a ha => .pure (hg a ha)

theorem problem (noun : String) (p : RunProblem) :
    (Run.problem noun p : Run σ Unit).Says Q fun _ => True :=
  fun _ hs => ⟨trivial, hs⟩

/-- A change of the session keeps the kind if it keeps it for all sessions. -/
theorem modifySession {f : Session → Session} (hf : ∀ s, s.Says Q → (f s).Says Q) :
    (Run.modifySession f : Run σ Unit).Says Q fun _ => True :=
  fun s hs => ⟨trivial, hf s.session hs⟩

theorem session : (Run.session : Run σ Session).Says Q fun s => s.Says Q :=
  fun _ hs => ⟨hs, hs⟩

theorem tell (f : σ → σ) : (Run.tell f).Says Q fun _ => True :=
  fun _ hs => ⟨trivial, hs⟩

/-- What a book answers is known whatever state the host is in. -/
theorem ask {f : σ → α} (hf : ∀ host, P (f host)) : (Run.ask f).Says Q P :=
  fun s hs => ⟨hf s.host, hs⟩

/-- A call changes the host only, and its answer is known. -/
theorem call {f : σ → α × σ} (hf : ∀ host, P (f host).1) : (Run.call f).Says Q P :=
  fun s hs => ⟨hf s.host, hs⟩

/-- A row of parts. -/
theorem forM {as : List α} {f : α → Run σ Unit} (hf : ∀ a ∈ as, (f a).Says Q fun _ => True) :
    (as.forM f).Says Q fun _ => True := by
  induction as with
  | nil => exact .pure trivial
  | cons a as ih =>
    exact (hf a List.mem_cons_self).bind fun _ _ => ih fun b hb => hf b (List.mem_cons_of_mem a hb)

end Run.Says

/-- What is known of an operand: its value has atoms of a kind. -/
abbrev Operand.Says (Q : String → Prop) (o : Operand) : Prop :=
  o.value.Says Q

/-! ### Functions -/

namespace Function

variable {b : Book σ} (hQ : Text.Robust Q)

/-- Numbers that are written out have no line breaks. -/
theorem robust_text (hQ : Text.Robust Q) (n : Nat) : Q (Decimal.text n) := by
  refine hQ.unbroken fun c hc => ?_
  have hdigit := Decimal.isDigit_of_mem_text hc
  constructor <;> rintro rfl <;> exact absurd hdigit (by decide)

/-- Assets are switched by their names, which are not empty. -/
theorem says_switchAssets (on : Bool) {assets : List String}
    (h : ∀ asset ∈ assets, asset ≠ "" ∧ Q asset) :
    (switchAssets b on assets).Says Q fun _ => True :=
  .forM fun asset hasset => .bind
    (.modifySession fun _ hs => hs.setAsset (h asset hasset).1 (h asset hasset).2 on)
    fun _ _ => .tell _

include hQ

/-- A session is renamed to one line, or not at all. -/
theorem says_renameTo (name : String) {s : Session} (hs : s.Says Q) : (renameTo name s).Says Q := by
  rw [renameTo]
  split
  · exact hs
  · exact hs.rename hQ name

/-- A bookmark is set on the last action, or waits for the one under way. The answer is a number. -/
theorem says_placeBookmark (description : Option String) :
    (placeBookmark description : Run σ Operand).Says Q (Operand.Says Q) := by
  refine .bind .session fun s hs => ?_
  split
  · exact .bind (P := fun _ => True) (fun _ hs => ⟨trivial, hs⟩) fun _ _ =>
      .pure (Value.says_of_nil rfl)
  · split
    next ht =>
      exact .bind (.modifySession fun _ _ => hs.addBookmark? hQ ht) fun _ _ =>
        .pure (Value.says_of_nil rfl)
    next => exact .pure (Value.says_of_nil rfl)

/-- An entry of the list is a number, a blank and the action of a snapshot. -/
theorem says_snapshotList {s : Session} (hs : s.Says Q) : ∀ entry ∈ snapshotList s, Q entry := by
  intro entry hentry
  obtain ⟨i, -, rfl⟩ := List.mem_map.mp hentry
  have hblank : Q " " := hQ.unbroken (by simp [Text.Unbroken])
  refine hQ.append (hQ.append (robust_text hQ i) hblank) ?_
  cases haction : s.snapshotAction? i with
  | none => exact hQ.empty
  | some action => exact hs.snapshotAction? haction

/-- A function that is called with atoms of a kind answers with such. -/
theorem says_call (hb : b.Says Q) (noun : String) (f : Function) {args : Operand}
    (hargs : args.Says Q) : (f.call b noun args).Says Q (Operand.Says Q) := by
  have hnil : ∀ {o : Operand}, o.value.atoms = [] →
      (Pure.pure o : Run σ Operand).Says Q (Operand.Says Q) := fun h =>
    .pure (Value.says_of_nil h)
  cases f with
  | size => exact hnil rfl
  | play => exact .bind (says_switchAssets true hargs) fun _ _ => .pure hargs
  | stop => exact .bind (says_switchAssets false hargs) fun _ _ => .pure hargs
  | keyword =>
    refine .pure (Value.says_ofAtoms fun a ha => ?_)
    obtain ⟨atom, hatom, rfl⟩ := List.mem_map.mp ha
    have hleft : Q "<" := hQ.unbroken (by simp [Text.Unbroken])
    have hright : Q ">" := hQ.unbroken (by simp [Text.Unbroken])
    exact hQ.append (hQ.append hleft (hargs atom hatom).2) hright
  | selectValue =>
    refine .bind (.call (P := fun _ => True) fun _ => trivial) fun choice _ => ?_
    cases choice with
    | none => exact hnil rfl
    | some i =>
      dsimp only
      cases hatom : args.value.atoms[i]? with
      | none => exact .bind (.problem noun _) fun _ _ => hnil rfl
      | some atom => exact .pure (Value.says_ofAtom (hargs atom (List.mem_of_getElem? hatom)).2)
  | print =>
    rw [Function.call]
    dsimp only
    split
    · exact .pure hargs
    · exact fun _ hs => ⟨hargs, hs⟩
  | openMenu | closeMenu | closeBook | quit => exact .bind (.tell _) fun _ _ => .pure hargs
  | openBook | isInGame | dialog =>
    exact fun _ hs => ⟨Value.says_of_nil rfl, hs⟩
  | saveSession => exact fun _ hs => ⟨Value.says_of_nil rfl, hs⟩
  | getBooks => exact .map (.ask hb.books) fun _ h => Value.says_ofAtoms h
  | getSessions => exact .map (.ask hb.sessions) fun _ h => Value.says_ofAtoms h
  | getSessionName => exact .map .session fun _ hs => Value.says_ofAtom hs.name
  | branchSession =>
    exact .bind (.modifySession fun _ hs => says_renameTo hQ _ hs) fun _ _ _ hs =>
      ⟨Value.says_of_nil rfl, hs⟩
  | loadSession =>
    refine .bind (.call (P := fun t => ∀ s ∈ t, s.Says Q) fun host s hs => ?_) fun t ht => ?_
    · exact hb.load _ host s _ (Prod.ext hs rfl)
    · cases t with
      | none => exact hnil rfl
      | some s => exact .bind (.modifySession fun _ _ => ht s rfl) fun _ _ => hnil rfl
  | newSession =>
    exact .bind (.modifySession fun _ hs => says_renameTo hQ _ hs.reset) fun _ _ => hnil rfl
  | bookmark => exact says_placeBookmark hQ none
  | userBookmark => exact says_placeBookmark hQ _
  | loadSnapshot =>
    refine .bind .session fun s hs => ?_
    split
    next t ht =>
      split at ht
      · cases ht
      · exact .bind (.modifySession fun _ _ => hs.loadSnapshot? ht) fun _ _ => hnil rfl
    next => exact hnil rfl
  | getSnapshots => exact .map .session fun _ hs => Value.says_ofAtoms (says_snapshotList hQ hs)
  | getBookmarks =>
    refine .map .session fun s hs => Value.says_ofAtoms fun a ha => ?_
    obtain ⟨e, he, rfl⟩ := List.mem_map.mp ha
    have hblank : Q " " := hQ.unbroken (by simp [Text.Unbroken])
    exact hQ.append (hQ.append (robust_text hQ e.1) hblank) (hs.bookmarks e he)
  | getSnapshotIndex => exact .map .session fun _ _ => Value.says_of_nil rfl
  | input =>
    refine .bind (.call (P := fun answer => ∀ line ∈ answer, Q (.ofList (Text.trim line.toList)))
      fun host line hline => ?_) fun answer hanswer => ?_
    · exact hb.input _ host line _ (Prod.ext hline rfl)
    · cases answer with
      | none => exact hnil rfl
      | some line => exact .pure (Value.says_ofAtom (hanswer line rfl))

end Function

/-! ### Evaluation -/

section Expr

variable {g : Setting σ} (hQ : Text.Robust Q) (hstory : g.story.Says Q) (hbook : g.book.Says Q)
  {verb : String → String → Run σ Bool}
  (hverb : ∀ noun name, (verb noun name).Says Q fun _ => True) {noun : String}

include hstory in
/-- The default of a noun is that of its page, or the empty value. -/
theorem says_defaultOf (noun : String) : (g.defaultOf noun).Says Q := by
  rw [Setting.defaultOf]
  cases hpage : g.story.page? noun with
  | none => exact Value.says_of_nil rfl
  | some p => exact (hstory p (List.mem_of_find?_eq_some hpage)).defaults

include hstory in
/-- The value of a noun comes from the session, or else from the story. -/
theorem says_valueOf (noun : String) : (g.valueOf noun).Says Q (Value.Says Q) := by
  refine .bind .session fun s hs => ?_
  cases hvalue : s.value? noun with
  | some v => exact .pure (hs.value? hvalue)
  | none =>
    rw [Story.lookup]
    cases hpage : g.story.page? noun with
    | none => exact fun _ hs => ⟨Value.says_of_nil rfl, hs⟩
    | some p => exact .pure (hstory p (List.mem_of_find?_eq_some hpage)).defaults

include hQ

/-- Operators take atoms from both sides, or put them together. -/
theorem says_combine {l r : Operand} (hl : l.Says Q) (op : Operator) (hr : r.Says Q) :
    (combine noun l op r : Run σ Operand).Says Q (Operand.Says Q) := by
  have hresult : (l.combine op r).Says Q := Operand.says_combine hQ hl op hr
  rw [combine]
  split
  · exact .bind (.problem noun _) fun _ _ => .pure hresult
  · exact .pure hresult

include hbook

/-- Functions are called one by one, each with the answer of the one in front. -/
theorem says_callAll (names : List String) {args : Operand} (hargs : args.Says Q) :
    (callAll g.book noun args names).Says Q (Operand.Says Q) := by
  induction names generalizing args with
  | nil => exact .pure hargs
  | cons name rest ih =>
    rw [callAll]
    cases Function.ofName? name with
    | none => exact .bind (.problem noun _) fun _ _ => .pure (Value.says_of_nil rfl)
    | some f => exact .bind (Function.says_call hQ hbook noun f hargs) fun _ => ih

/-- It does not matter what a callee is called: its atoms name functions, and do not get into the
session. -/
theorem says_callNamed (callee : Value) {args : Operand} (hargs : args.Says Q) :
    (callNamed g.book noun callee args).Says Q (Operand.Says Q) := by
  rw [callNamed]
  split
  · exact .bind (.problem noun _) fun _ _ => .pure (Value.says_of_nil rfl)
  · exact says_callAll hQ hbook callee.atoms hargs

include hstory hverb

set_option linter.unusedSectionVars false in
mutual

/-- The atoms of an expression are names in the script, and so unbroken, or those of a noun. Verbs
are known to keep the kind, whatever they do. -/
theorem says_evalPrimary : ∀ p : Primary, p.Unbroken →
    (evalPrimary g verb noun p).Says Q (Operand.Says Q)
  | .atom name, h => by
    rw [evalPrimary]
    rw [Primary.Unbroken] at h
    exact .pure (Value.says_ofAtom (hQ.unbroken h))
  | .integer n, _ => by
    rw [evalPrimary]
    exact .pure (Value.says_of_nil rfl)
  | .integerOf name, _ => by
    rw [evalPrimary]
    exact .map (says_valueOf hstory name) fun _ _ => Value.says_of_nil rfl
  | .deref name, _ => by
    rw [evalPrimary]
    exact .map (says_valueOf hstory name) fun v hv => Value.says_ofAtoms fun a ha => (hv a ha).2
  | .verbCall target name, _ => by
    rw [evalPrimary]
    exact .map (hverb _ name) fun _ _ => Value.says_of_nil rfl
  | .group e, h => by
    rw [evalPrimary]
    rw [Primary.Unbroken] at h
    exact says_evalExpr e h

/-- The atoms of a call come from the functions. -/
theorem says_evalItem : ∀ i : Item, i.Unbroken →
    (evalItem g verb noun i).Says Q (Operand.Says Q)
  | .primary p, h => by
    rw [evalItem]
    rw [Item.Unbroken] at h
    exact says_evalPrimary p h
  | .invoke callee, h => by
    rw [evalItem]
    rw [Item.Unbroken] at h
    exact .bind (says_evalPrimary callee h) fun callee _ =>
      says_callNamed hQ hbook callee.value (Value.says_of_nil rfl)
  | .apply callee arguments, h => by
    rw [evalItem]
    rw [Item.Unbroken] at h
    exact .bind (says_evalPrimary callee h.1) fun callee _ =>
      .bind (says_evalExpr arguments h.2) fun _ => says_callNamed hQ hbook callee.value

/-- The items of a term are joined one by one to what is there already. -/
theorem says_evalTermOnto : ∀ (t : Term) (acc : Operand), t.Unbroken → acc.Says Q →
    (evalTermOnto g verb noun acc t).Says Q (Operand.Says Q)
  | .item i, acc, h, hacc => by
    rw [evalTermOnto]
    rw [Term.Unbroken] at h
    exact .bind (says_evalItem i h) fun _ => says_combine hQ hacc _
  | .join i rest, acc, h, hacc => by
    rw [evalTermOnto]
    rw [Term.Unbroken] at h
    exact .bind (says_evalItem i h.1) fun o ho => .bind (says_combine hQ hacc _ ho) fun acc hacc =>
      says_evalTermOnto rest acc h.2 hacc

theorem says_evalTerm : ∀ t : Term, t.Unbroken →
    (evalTerm g verb noun t).Says Q (Operand.Says Q)
  | .item i, h => by
    rw [evalTerm]
    rw [Term.Unbroken] at h
    exact says_evalItem i h
  | .join i rest, h => by
    rw [evalTerm]
    rw [Term.Unbroken] at h
    exact .bind (says_evalItem i h.1) fun first => says_evalTermOnto rest first h.2

/-- Both sides of an operator keep the kind, and so does their combination. -/
theorem says_evalExpr : ∀ e : Expr, e.Unbroken →
    (evalExpr g verb noun e).Says Q (Operand.Says Q)
  | .term t, h => by
    rw [evalExpr]
    rw [Expr.Unbroken] at h
    exact says_evalTerm t h
  | .binary left op right, h => by
    rw [evalExpr]
    rw [Expr.Unbroken] at h
    exact .bind (says_evalExpr left h.1) fun _ hl => .bind (says_evalTerm right h.2) fun _ =>
      says_combine hQ hl op

end

theorem says_evalOptional {e : Option Expr} (h : ∀ x ∈ e, x.Unbroken) :
    (evalOptional g verb noun e).Says Q (Operand.Says Q) := by
  cases e with
  | none => exact .pure (Value.says_of_nil rfl)
  | some e => exact says_evalExpr hQ hstory hbook hverb e (h e rfl)

/-! ### Conditions and instructions -/

omit hbook hverb in
/-- The values of several nouns are joined. -/
theorem says_uniteValues (names : List String) {acc : Operand} (hacc : acc.Says Q) :
    (uniteValues g acc names).Says Q (Operand.Says Q) := by
  induction names generalizing acc with
  | nil => exact .pure hacc
  | cons name rest ih =>
    exact .bind (says_valueOf hstory name) fun v hv =>
      ih (Operand.says_combine hQ hacc .union (r := ⟨v, false⟩) hv)

/-- A condition is about the noun at hand, about the nouns that its left side names, or about the
value of that side. -/
theorem says_subject {e : Option Expr} (h : ∀ x ∈ e, x.Unbroken) :
    (subject g verb noun e).Says Q (Operand.Says Q) := by
  cases e with
  | none => exact .map (says_valueOf hstory noun) fun _ hv => hv
  | some e =>
    refine .bind (says_evalExpr hQ hstory hbook hverb e (h e rfl)) fun o ho => ?_
    split
    · exact .pure ho
    · exact says_uniteValues hQ hstory _ (Value.says_of_nil rfl)

theorem says_evalCondition {c : Condition} (h : c.Unbroken) :
    (evalCondition g verb noun c).Says Q fun _ => True := by
  cases c with
  | always => exact .pure trivial
  | bare e => exact .map (says_evalExpr hQ hstory hbook hverb e h) fun _ _ => trivial
  | compare s c v =>
    exact .bind (says_subject hQ hstory hbook hverb h.1) fun _ _ =>
      .map (says_evalOptional hQ hstory hbook hverb h.2) fun _ _ => trivial

omit hQ hbook hverb in
/-- A noun is changed by a value of the kind, and is one of the kind itself. -/
theorem says_changeNoun (c : Change) {v : Value} (hv : v.Says Q) {target : String}
    (htarget : Q target) : (changeNoun g c v target).Says Q fun _ => True :=
  .modifySession fun _ hs => hs.modifyValue htarget (says_defaultOf hstory target) c hv

/-- The nouns that are changed are atoms of an expression, or the noun at hand. -/
theorem says_targetsOf (hnoun : Q noun) {e : Option Expr} (h : ∀ x ∈ e, x.Unbroken) :
    (targetsOf g verb noun e).Says Q fun targets => ∀ target ∈ targets, Q target := by
  cases e with
  | none => exact .pure fun target ht => List.mem_singleton.mp ht ▸ hnoun
  | some e =>
    exact .map (says_evalExpr hQ hstory hbook hverb e (h e rfl)) fun _ ho target ht =>
      (ho target ht).2

/-- An action changes the nouns that its target names, each by the same value. -/
theorem says_runAction (hnoun : Q noun) {a : Action} (h : a.Unbroken) :
    (runAction g verb noun a).Says Q fun _ => True := by
  cases a with
  | bare e => exact .map (says_evalExpr hQ hstory hbook hverb e h) fun _ _ => trivial
  | change target c v =>
    refine .bind (says_targetsOf hQ hstory hbook hverb hnoun h.1) fun targets htargets =>
      .bind (says_evalOptional hQ hstory hbook hverb h.2) fun v hv => ?_
    have hchanges : (targets.forM (changeNoun g c v.value)).Says Q fun _ => True :=
      .forM fun target ht => says_changeNoun hstory c hv (htargets target ht)
    dsimp only
    split
    · exact .bind (.problem noun _) fun _ _ => hchanges
    · exact hchanges

/-! ### Chains -/

/-- An invalid segment does nothing to the session. -/
theorem says_evalSegment (hnoun : Q noun) {s : Segment} (h : s.Unbroken) :
    (evalSegment g verb noun s).Says Q fun _ => True := by
  cases s with
  | condition c => exact .map (says_evalCondition hQ hstory hbook hverb h) fun _ _ => trivial
  | instruction i =>
    rw [evalSegment]
    rw [Segment.Unbroken] at h
    cases haction : i.action with
    | none => exact .pure trivial
    | some a =>
      exact .map (says_runAction hQ hstory hbook hverb hnoun (h a haction)) fun _ _ => trivial
  | invalid => exact .pure trivial

/-- Some of the segments behind a verdict are evaluated. -/
theorem says_evalSegments (hnoun : Q noun) {rest : List (Connector × Segment)}
    (h : ∀ s ∈ rest, s.2.Unbroken) (v : Verdict) :
    (evalSegments g verb noun v rest).Says Q fun _ => True := by
  induction rest generalizing v with
  | nil => exact .pure trivial
  | cons s rest ih =>
    rw [evalSegments]
    split
    · exact .bind (says_evalSegment hQ hstory hbook hverb hnoun (h s List.mem_cons_self))
        fun _ _ => ih (fun t ht => h t (List.mem_cons_of_mem s ht)) _
    · exact .pure trivial

theorem says_evalChain (hnoun : Q noun) {c : Chain} (h : c.Unbroken) :
    (evalChain g verb noun c).Says Q fun _ => True :=
  .bind (says_evalSegment hQ hstory hbook hverb hnoun h.1) fun first _ =>
    says_evalSegments hQ hstory hbook hverb hnoun h.2 first

omit hQ hstory hbook hverb in
/-- What is read of a script without escaped line feeds has unbroken names. -/
theorem says_readScript {script : String} (h : Text.Feedless script.toList) :
    (readScript noun script : Run σ Chain).Says Q fun c => c.Unbroken :=
  .bind (.forM fun _ _ => .problem noun _) fun _ _ => .pure (Chain.unbroken_ofText h)

/-- A blank script does nothing to the session. -/
theorem says_evalScript (hnoun : Q noun) {script : String}
    (h : Text.Feedless script.toList) :
    (evalScript g verb noun script).Says Q fun _ => True := by
  rw [evalScript]
  split
  · exact .pure trivial
  · exact .bind (says_readScript h) fun _ => says_evalChain hQ hstory hbook hverb hnoun

/-! ### Blocks -/

/-- A text is shown and not kept; the scripts of other blocks are evaluated. -/
theorem says_runBlock (hnoun : Q noun) {b : Block}
    (h : b.isExecuted → Text.Feedless b.expression.toList) {body : Run σ Nat}
    (hbody : body.Says Q fun _ => True) :
    (runBlock g verb noun b body).Says Q fun _ => True := by
  rw [runBlock]
  split
  · exact fun _ hs => ⟨trivial, hs⟩
  next hscript =>
    -- a block that is not executed was dealt with before
    have hexecuted : b.isExecuted = true := by
      cases hb : b.isExecuted with
      | true => rfl
      | false => exact absurd (by rw [hb]; rfl) hscript
    refine .bind (says_readScript (h hexecuted)) fun chain hatoms => ?_
    have hchain := says_evalChain hQ hstory hbook hverb hnoun hatoms
    split
    · refine .bind hchain fun v _ => ?_
      split
      · exact .map hbody fun _ _ => trivial
      · exact .pure trivial
    · split
      · exact .bind (.problem noun _) fun _ _ => .pure trivial
      · exact .map hchain fun _ _ => trivial

omit hQ hstory hbook hverb in
/-- Another branch is run, passed over or reported. -/
theorem says_runElse (branch : Option Bool) {body : Run σ Nat} (hbody : body.Says Q fun _ => True) :
    (runElse noun branch body).Says Q fun _ => True := by
  cases branch with
  | none => exact .bind (.problem noun _) fun _ _ => .pure trivial
  | some done =>
    cases done with
    | false => exact .map hbody fun _ _ => trivial
    | true => exact .pure trivial

/-- Blocks are run one behind the other, by recursion on the forest. -/
theorem says_runForest (hnoun : Q noun) {blocks : Forest}
    (h : blocks.All fun b => b.isExecuted → Text.Feedless b.expression.toList)
    (branch : Option Bool) : (runForest g verb noun branch blocks).Says Q fun _ => True := by
  induction blocks generalizing branch with
  | nil => exact .pure trivial
  | node b children rest ihChildren ihRest =>
    obtain ⟨hb, hchildren, hrest⟩ := h
    have hbody := ihChildren hchildren none
    -- what stands behind a block is run unless a level is left
    have hbehind : ∀ x : Bool × Nat, Run.Says Q (fun _ => True)
        (if x.2 = 0 then runForest g verb noun (branchAfter branch b x.1) rest
          else pure (x.2 - 1)) := by
      intro x
      split
      · exact ihRest hrest _
      · exact .pure trivial
    rw [runForest]
    dsimp only
    split
    · exact .bind (says_runElse branch hbody) fun x _ => hbehind x
    · exact .bind (says_runBlock hQ hstory hbook hverb hnoun hb hbody) fun x _ => hbehind x

/-! ### Verbs -/

/-- A verb runs the guard at its root, and then perhaps the blocks below. -/
theorem says_runRoot {page : Page} (hpage : page.Says Q) {v : Verb} (hv : v ∈ page.verbs) :
    (runRoot g verb page v.root).Says Q fun _ => True := by
  have havailable : (verbAvailable g verb page v.root).Says Q fun _ => True := by
    rw [verbAvailable]
    split
    next b hb =>
      exact .map (says_evalScript hQ hstory hbook hverb hpage.name (hpage.guards v hv b hb))
        fun _ _ => trivial
    next => exact .pure trivial
  refine .bind havailable fun ok _ => ?_
  split
  · exact .map (says_runForest hQ hstory hbook hverb hpage.name
      (Page.all_below hpage.scripts v.root) none) fun _ _ => trivial
  · exact .pure trivial

end Expr

/-- Running a verb leaves texts of the kind in the session, down to the depth that is left. -/
theorem says_runVerb (hQ : Text.Robust Q) {g : Setting σ} (hstory : g.story.Says Q)
    (hbook : g.book.Says Q) (depth : Nat) (noun name : String) :
    (runVerb g depth noun name).Says Q fun _ => True := by
  induction depth generalizing noun name with
  | zero =>
    rw [runVerb]
    split
    · exact fun _ hs => ⟨trivial, hs⟩
    · split
      · exact .bind (.problem noun _) fun _ _ => .pure trivial
      · exact .bind (.problem noun _) fun _ _ => .pure trivial
  | succ depth ih =>
    rw [runVerb, Story.lookup]
    cases hpage : g.story.page? noun with
    | none => exact fun _ hs => ⟨trivial, hs⟩
    | some page =>
      dsimp only
      cases hfound : page.findVerb? name with
      | none => exact .bind (.problem noun _) fun _ _ => .pure trivial
      | some v =>
        exact says_runRoot hQ hstory hbook ih (hstory page (List.mem_of_find?_eq_some hpage))
          (List.mem_of_find?_eq_some hfound)

end Gamebook
