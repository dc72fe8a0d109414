import Gamebook.Proofs.Page.Declared
import Mathlib.Data.List.Induction

/-!
# Conditions that enclose verbs

A condition above the verbs comes into scope with its brace or without one, and the scope of one
with a brace ends at the brace that closes it. Here the statements that do so are put on record
(`Draft.Recorded`), and what is in scope is told from the record alone (`Above.inScope`): the
conditions whose braces are not closed, in their order, and the last condition without braces as
long as no other condition came and no scope ended behind it.

A draft keeps a row of conditions and a count instead. The two always agree
(`Draft.Recorded.keepsRecord`), so the script at the root of a verb is made of the conditions that
enclose its declaration, and of no others (`Page.guards_enclosed`).
-/

namespace Gamebook

open Script

/-! ### Records -/

namespace Above

/-- How many closing braces of a record are left over, so that they close braces in front of it. -/
def excess : List Above → Nat
  | [] => 0
  | opens _ :: later => excess later - 1
  | implies _ :: later => excess later
  | closes :: later => excess later + 1

/-- The conditions of a record whose braces are not closed in it. -/
def unclosed : List Above → List String
  | [] => []
  | opens e :: later => if excess later = 0 then e :: unclosed later else unclosed later
  | implies _ :: later => unclosed later
  | closes :: later => unclosed later

/-- The condition without braces at the end of a record. What comes behind one takes its place or
ends the level it belongs to. -/
def lastImplied (record : List Above) : Option String :=
  match record.getLast? with
  | some (implies e) => some e
  | _ => none

/-- The conditions in scope behind a record, oldest first. -/
def inScope (record : List Above) : List String :=
  unclosed record ++ (lastImplied record).toList

/-- The conditions whose braces are not closed, with the number of those around them. -/
def enclosing (record : List Above) : List Pending :=
  (unclosed record).mapIdx fun depth e => ⟨e, depth, true⟩

/-- The condition without braces at the end, with the number of those around it. -/
def trailing (record : List Above) : Option Pending :=
  (lastImplied record).map fun e => ⟨e, (unclosed record).length, false⟩

variable (record : List Above)

theorem excess_concat_opens (e : String) : excess (record ++ [opens e]) = excess record := by
  induction record with
  | nil => rfl
  | cons a later ih => cases a <;> simp [excess, ih]

/-- A brace that is opened last is not closed, nor does it close another. -/
theorem unclosed_concat_opens (e : String) :
    unclosed (record ++ [opens e]) = unclosed record ++ [e] := by
  induction record with
  | nil => rfl
  | cons a later ih =>
    cases a with
    | opens f =>
      rw [List.cons_append, unclosed, unclosed, excess_concat_opens, ih]
      split <;> rfl
    | implies | closes => exact ih

theorem excess_concat_implies (e : String) : excess (record ++ [implies e]) = excess record := by
  induction record with
  | nil => rfl
  | cons a later ih => cases a <;> simp [excess, ih]

/-- A condition without braces leaves the braces around it open. -/
theorem unclosed_concat_implies (e : String) :
    unclosed (record ++ [implies e]) = unclosed record := by
  induction record with
  | nil => rfl
  | cons a later ih =>
    cases a with
    | opens f => rw [List.cons_append, unclosed, unclosed, excess_concat_implies, ih]
    | implies | closes => exact ih

/-- One more closing brace closes the last brace that is open, and is left over if there is none. -/
theorem concat_closes : unclosed (record ++ [closes]) = (unclosed record).dropLast ∧
    excess (record ++ [closes]) = if unclosed record = [] then excess record + 1
      else excess record := by
  induction record with
  | nil => exact ⟨rfl, rfl⟩
  | cons a later ih =>
    obtain ⟨hunclosed, hexcess⟩ := ih
    cases a with
    | opens e =>
      simp only [List.cons_append, unclosed, excess, hexcess, hunclosed]
      by_cases hnone : unclosed later = []
      · by_cases hzero : excess later = 0
        · simp [hnone, hzero]
        · simp only [hnone, hzero, if_true, if_false, List.dropLast_nil]
          exact ⟨by simp, by omega⟩
      · by_cases hzero : excess later = 0
        · simp [hnone, hzero, List.dropLast_cons_of_ne_nil hnone]
        · simp [hnone, hzero]
    | implies e => exact ⟨hunclosed, hexcess⟩
    | closes =>
      refine ⟨hunclosed, ?_⟩
      simp only [List.cons_append, excess, unclosed, hexcess]
      exact apply_ite (· + 1) _ _ _

theorem length_enclosing : (enclosing record).length = (unclosed record).length :=
  List.length_mapIdx

/-- A condition with a brace stands in those that came before it. -/
theorem of_mem_enclosing {p : Pending} (h : p ∈ enclosing record) :
    p.explicit = true ∧ p.depth < (unclosed record).length := by
  obtain ⟨depth, hdepth, rfl⟩ := List.mem_mapIdx.mp h
  exact ⟨rfl, hdepth⟩

/-- The one without braces stands in all whose braces are open. -/
theorem of_mem_trailing {p : Pending} (h : p ∈ trailing record) :
    p.explicit = false ∧ p.depth = (unclosed record).length := by
  obtain ⟨e, -, rfl⟩ := Option.map_eq_some_iff.mp h
  exact ⟨rfl, rfl⟩

/-- One more condition with a brace is the innermost. -/
theorem enclosing_concat_opens (e : String) : enclosing (record ++ [opens e]) =
    enclosing record ++ [⟨e, (unclosed record).length, true⟩] := by
  rw [enclosing, unclosed_concat_opens, List.mapIdx_concat, enclosing]

theorem enclosing_concat_implies (e : String) :
    enclosing (record ++ [implies e]) = enclosing record := by
  rw [enclosing, unclosed_concat_implies, enclosing]

/-- The innermost of the conditions whose braces are not closed. -/
theorem enclosing_of_ne_nil (h : unclosed record ≠ []) :
    ∃ own, enclosing record = enclosing (record ++ [closes]) ++ [own] ∧ own.explicit = true ∧
      own.depth + 1 = (unclosed record).length ∧
      (unclosed record).getLast? = some own.expression := by
  obtain ⟨init, e, heq⟩ := List.eq_nil_or_concat' (unclosed record) |>.resolve_left h
  refine ⟨⟨e, init.length, true⟩, ?_, rfl, by simp [heq], by simp [heq]⟩
  rw [enclosing, enclosing, (concat_closes record).1, heq, List.mapIdx_concat,
    List.dropLast_concat]

/-- In the order of the conditions, those in scope. -/
theorem map_expression : (enclosing record ++ (trailing record).toList).map (·.expression) =
    inScope record := by
  rw [inScope, enclosing, trailing, List.map_append]
  congr 1
  · rw [List.mapIdx_eq_zipIdx_map, List.map_map]
    exact List.zipIdx_map_fst 0 _
  · cases lastImplied record <;> rfl

end Above

namespace Draft

/-! ### Records of statements -/

/-- The drafts that reading a text comes to, each with the text that is left, and with the record of
the conditions above the verbs. -/
inductive Recorded (first : Draft) (body : List Char) : List Above → Draft → List Char → Prop
  /-- Nothing is read yet. -/
  | start : Recorded first body [] first body
  /-- One more statement is read. -/
  | step {record : List Above} {d : Draft} {c : Char} {rest : List Char} :
      Recorded first body record d (c :: rest) →
      Recorded first body (record ++ (d.above c rest).toList) (d.step c rest).1
        (rest.drop (d.step c rest).2)

variable {first d d' : Draft} {body cs : List Char} {record : List Above}

/-- There is a record for each draft that reading comes to. -/
theorem Reached.recorded (h : Reached first body d cs) :
    ∃ record, Recorded first body record d cs := by
  induction h with
  | start => exact ⟨[], .start⟩
  | step _ ih =>
    obtain ⟨record, hrecord⟩ := ih
    exact ⟨_, hrecord.step⟩

/-! ### The conditions that a draft keeps -/

/-- Only the scope of a condition that is open ends. -/
theorem Stepped.depth_ne_zero {d d' : Draft} {c : Char} {rest : List Char}
    (h : Stepped d c rest (some .closes) d') : d.depth ≠ 0 := by
  obtain ⟨e, -, hchange⟩ := h
  generalize hcloses : some Above.closes = a at hchange
  cases hchange with
  | nothing | put | opened => cases hcloses
  | pend explicit => cases explicit <;> cases hcloses
  | close hdepth => exact hdepth

/-- Whether a draft keeps just the conditions that a record says are in scope. -/
structure KeepsRecord (d : Draft) (record : List Above) : Prop where
  pending : d.pending = (Above.trailing record).toList ++ (Above.enclosing record).reverse
  depth : d.depth = (Above.unclosed record).length

namespace KeepsRecord

variable {d d' : Draft} {record : List Above}

/-- It is a matter of the conditions and of their depth. -/
theorem of_eq (h : d.KeepsRecord record) (hpending : d'.pending = d.pending)
    (hdepth : d'.depth = d.depth) : d'.KeepsRecord record :=
  ⟨hpending.trans h.pending, hdepth.trans h.depth⟩

/-- A condition that comes into scope takes the place of one without braces. -/
theorem filter_pending (h : d.KeepsRecord record) :
    (d.pending.filter fun p => p.explicit || p.depth != d.depth) =
      (Above.enclosing record).reverse := by
  rw [h.pending, h.depth, List.filter_append]
  have htrailing : ((Above.trailing record).toList.filter fun p =>
      p.explicit || p.depth != (Above.unclosed record).length) = [] := by
    refine List.filter_eq_nil_iff.mpr fun p hp => ?_
    obtain ⟨hexplicit, hdepth⟩ := Above.of_mem_trailing record (Option.mem_toList.mp hp)
    simp [hexplicit, hdepth]
  have henclosing : ((Above.enclosing record).reverse.filter fun p =>
      p.explicit || p.depth != (Above.unclosed record).length) =
        (Above.enclosing record).reverse := by
    refine List.filter_eq_self.mpr fun p hp => ?_
    rw [(Above.of_mem_enclosing record (List.mem_reverse.mp hp)).1, Bool.true_or]
  rw [htrailing, henclosing, List.nil_append]

/-- A condition with a brace is put in front, and there is no condition without braces behind it. -/
theorem pend_opens (h : d.KeepsRecord record) (e : String) :
    (d.pend e true).KeepsRecord (record ++ [.opens e]) := by
  have hnone : Above.trailing (record ++ [.opens e]) = none := by
    rw [Above.trailing, Above.lastImplied, List.getLast?_concat]
    rfl
  refine ⟨?_, ?_⟩
  · rw [pend]
    dsimp only
    rw [h.filter_pending, h.depth, hnone, Above.enclosing_concat_opens, List.reverse_concat]
    rfl
  · rw [Above.unclosed_concat_opens, List.length_append, ← h.depth]
    rfl

/-- A condition without braces takes the place of one that is there at the same depth. -/
theorem pend_implies (h : d.KeepsRecord record) (e : String) :
    (d.pend e false).KeepsRecord (record ++ [.implies e]) := by
  have hlast : Above.trailing (record ++ [.implies e]) =
      some ⟨e, (Above.unclosed record).length, false⟩ := by
    rw [Above.trailing, Above.lastImplied, List.getLast?_concat, Above.unclosed_concat_implies]
    rfl
  refine ⟨?_, ?_⟩
  · rw [pend]
    dsimp only
    rw [h.filter_pending, h.depth, hlast, Above.enclosing_concat_implies]
    rfl
  · rw [Above.unclosed_concat_implies, ← h.depth]
    rfl

/-- The innermost condition with a brace, what came into scope behind it, and what it stands in. -/
theorem exists_own (h : d.KeepsRecord record) (hdepth : d.depth ≠ 0) :
    ∃ own, d.pending = (Above.trailing record).toList ++
        own :: (Above.enclosing (record ++ [.closes])).reverse ∧
      own.explicit = true ∧ own.depth + 1 = d.depth ∧
      (Above.unclosed record).getLast? = some own.expression := by
  have hne : Above.unclosed record ≠ [] := by
    intro hnil
    rw [h.depth, hnil] at hdepth
    exact hdepth rfl
  obtain ⟨own, henclosing, hexplicit, hown, hlast⟩ := Above.enclosing_of_ne_nil record hne
  refine ⟨own, ?_, hexplicit, hown.trans h.depth.symm, hlast⟩
  rw [h.pending, henclosing, List.reverse_concat]

/-- A brace that closes drops the innermost condition with a brace, and with it the one without
braces that came behind. -/
theorem closeAbove (h : d.KeepsRecord record) (hdepth : d.depth ≠ 0) :
    d.closeAbove.KeepsRecord (record ++ [.closes]) := by
  obtain ⟨own, hpending, hexplicit, hown, -⟩ := h.exists_own hdepth
  have hnone : Above.trailing (record ++ [.closes]) = none := by
    rw [Above.trailing, Above.lastImplied, List.getLast?_concat]
    rfl
  have hinside : ∀ p ∈ (Above.trailing record).toList,
      (!(p.explicit && p.depth + 1 == d.depth)) = true := by
    intro p hp
    rw [(Above.of_mem_trailing record (Option.mem_toList.mp hp)).1]
    rfl
  refine ⟨?_, ?_⟩
  · rw [Draft.closeAbove]
    dsimp only
    rw [hpending, List.dropWhile_append_of_pos hinside,
      List.dropWhile_cons_of_neg (by simp [hexplicit, hown]), hnone]
    rfl
  · rw [(Above.concat_closes record).1, List.length_dropLast, ← h.depth]
    rfl

/-- What a draft keeps and what a record says stay in agreement. -/
theorem step (h : d.KeepsRecord record) {c : Char} {rest : List Char} {a : Option Above}
    (hd : Stepped d c rest a d') : d'.KeepsRecord (record ++ a.toList) := by
  obtain ⟨e, hsettles, hchange⟩ := hd
  have he := h.of_eq hsettles.pending hsettles.depth
  cases hchange with
  | nothing | put | opened =>
    rw [Option.toList_none, List.append_nil]
    exact he.of_eq rfl rfl
  | pend explicit =>
    cases explicit with
    | true => exact he.pend_opens _
    | false => exact he.pend_implies _
  | close hdepth => exact he.closeAbove (hsettles.depth ▸ hdepth)

end KeepsRecord

/-- Every draft that reading a body comes to keeps the conditions that the record says are in
scope. -/
theorem Recorded.keepsRecord {page : Page} {origin : Span} {body cs : List Char} {d : Draft}
    {record : List Above} (h : Recorded { page, origin } body record d cs) :
    d.KeepsRecord record := by
  induction h with
  | start => exact ⟨rfl, rfl⟩
  | @step record d c rest _ ih => exact ih.step (stepped_step d c rest)

/-- How the conditions above the verbs stand in a draft. -/
structure Stacked (d : Draft) : Prop where
  /-- The depth counts the conditions with a brace. -/
  depth : d.depth = (d.pending.filter (·.explicit)).length
  /-- Each of these came into scope at the depth that its place among them says. -/
  explicit : ∀ k (p : Pending), (d.pending.reverse.filter (·.explicit))[k]? = some p → p.depth = k
  /-- At most one condition has no brace, and it is the newest. -/
  implied : ∀ p ∈ d.pending.tail, p.explicit = true
  /-- That one came into scope at the depth at hand. -/
  current : ∀ p ∈ d.pending.head?, p.explicit = false → p.depth = d.depth

namespace KeepsRecord

variable {d : Draft} {record : List Above} (h : d.KeepsRecord record)

include h

/-- The conditions of a draft, oldest first, are those in scope. -/
theorem conditions_eq : d.conditions = Above.inScope record := by
  have htrailing : (Above.trailing record).toList.reverse = (Above.trailing record).toList := by
    cases Above.trailing record <;> rfl
  rw [conditions, h.pending, List.reverse_append, List.reverse_reverse, htrailing,
    Above.map_expression]

theorem filter_explicit :
    d.pending.filter (·.explicit) = (Above.enclosing record).reverse := by
  have htrailing : (Above.trailing record).toList.filter (·.explicit) = [] := by
    refine List.filter_eq_nil_iff.mpr fun p hp => ?_
    simp [(Above.of_mem_trailing record (Option.mem_toList.mp hp)).1]
  have henclosing : (Above.enclosing record).reverse.filter (·.explicit) =
      (Above.enclosing record).reverse :=
    List.filter_eq_self.mpr fun p hp =>
      (Above.of_mem_enclosing record (List.mem_reverse.mp hp)).1
  rw [h.pending, List.filter_append, htrailing, henclosing, List.nil_append]

/-- What the record says of the conditions is enough for how they stand. -/
theorem stacked : d.Stacked := by
  refine ⟨?_, fun k p hp => ?_, fun p hp => ?_, fun p hp hexplicit => ?_⟩
  · rw [h.filter_explicit, List.length_reverse, Above.length_enclosing, h.depth]
  · rw [List.filter_reverse, h.filter_explicit, List.reverse_reverse, Above.enclosing,
      List.getElem?_mapIdx] at hp
    obtain ⟨e, -, rfl⟩ := Option.map_eq_some_iff.mp hp
    rfl
  · have hmem : p ∈ (Above.enclosing record).reverse := by
      rw [h.pending] at hp
      cases htrailing : Above.trailing record with
      | none =>
        rw [htrailing] at hp
        exact List.mem_of_mem_tail hp
      | some q =>
        rw [htrailing] at hp
        exact hp
    exact (Above.of_mem_enclosing record (List.mem_reverse.mp hmem)).1
  · rw [h.pending, List.head?_append] at hp
    rcases Option.or_eq_some_iff.mp hp with hp | ⟨-, hp⟩
    · have hmem := Option.mem_toList.mp (List.mem_of_head? hp)
      exact (Above.of_mem_trailing record hmem).2.trans h.depth.symm
    · have hmem := List.mem_reverse.mp (List.mem_of_head? hp)
      rw [(Above.of_mem_enclosing record hmem).1] at hexplicit
      cases hexplicit

end KeepsRecord

/-- Whether the brace at which a draft stands ends the scope of the last condition whose brace is
open: that condition goes out of scope, and so does all that came into scope inside of it. -/
def EndsScope (d d' : Draft) (record : List Above) : Prop :=
  ∃ (inside outer : List Pending) (own : Pending),
    d.pending = inside ++ own :: outer ∧ d'.pending = outer ∧
    d'.depth + 1 = d.depth ∧ own.explicit = true ∧ own.depth = d'.depth ∧
    (Above.unclosed record).getLast? = some own.expression ∧
    (∀ p ∈ inside, own.depth < p.depth) ∧ ∀ p ∈ outer, p.depth < own.depth

theorem KeepsRecord.endsScope {d : Draft} {record : List Above} (h : d.KeepsRecord record)
    {c : Char} {rest : List Char} (hcloses : d.above c rest = some .closes) :
    d.EndsScope (d.step c rest).1 record := by
  have hstep : Stepped d c rest (some .closes) (d.step c rest).1 := hcloses ▸ stepped_step d c rest
  have hdepth := hstep.depth_ne_zero
  obtain ⟨own, hpending, hexplicit, hown, hlast⟩ := h.exists_own hdepth
  have hnext : (d.step c rest).1.KeepsRecord (record ++ [.closes]) := h.step hstep
  have hnone : Above.trailing (record ++ [.closes]) = none := by
    rw [Above.trailing, Above.lastImplied, List.getLast?_concat]
    rfl
  have hlength : (d.step c rest).1.depth + 1 = d.depth := by
    have hconcat := congrArg List.length (Above.concat_closes record).1
    rw [List.length_dropLast, ← h.depth, ← hnext.depth] at hconcat
    omega
  refine ⟨_, _, own, hpending, ?_, hlength, hexplicit, by omega, hlast, fun p hp => ?_,
    fun p hp => ?_⟩
  · rw [hnext.pending, hnone]
    rfl
  · have hinside := (Above.of_mem_trailing record (Option.mem_toList.mp hp)).2
    rw [← h.depth] at hinside
    omega
  · have houtside := (Above.of_mem_enclosing _ (List.mem_reverse.mp hp)).2
    rw [← hnext.depth] at houtside
    omega

end Draft

/-! ### Verbs -/

/-- **Conditions above the verbs guard the verbs that they enclose.** Wherever a body is read to,
its record tells which conditions are in scope; they stand in order, and a brace that ends the scope
of one takes away just that one and what came into scope inside of it. The script at the root of
each verb is made of the conditions that are in scope where the verb is declared. -/
theorem Page.guards_enclosed (page : Page) (body : String) (origin : Span) :
    let first : Draft := { page, origin }
    (∀ d cs, Draft.Reached first body.toList d cs →
      ∃ record, Draft.Recorded first body.toList record d cs) ∧
    (∀ record d cs, Draft.Recorded first body.toList record d cs →
      d.Stacked ∧ d.conditions = Above.inScope record ∧
      ∀ c rest, cs = c :: rest → d.above c rest = some .closes →
        d.EndsScope (d.step c rest).1 record) ∧
    ∀ v ∈ (page.ofBody body origin).1.verbs, v ∉ page.verbs →
      ∃ record d cs behind, Draft.Recorded first body.toList record d cs ∧
        (d.declarations [] cs).2 = some (v.names, behind) ∧ v.root = d.page.blocks.length ∧
        ∃ b, (page.ofBody body origin).1.block? v.root = some b ∧
          b.expression = foldChains (Above.inScope record) := by
  intro first
  refine ⟨fun d cs hd => hd.recorded, fun record d cs hd => ?_, fun v hv hnew => ?_⟩
  · have hkeeps := hd.keepsRecord
    exact ⟨hkeeps.stacked, hkeeps.conditions_eq, fun c rest _ hcloses => hkeeps.endsScope hcloses⟩
  · obtain ⟨conditions, ⟨d, cs, behind, hd, hread, -, hroot, rfl⟩, ⟨b, hb, hguard⟩, -⟩ :=
      Page.guards_ofBody hv hnew
    obtain ⟨record, hrecord⟩ := hd.recorded
    refine ⟨record, d, cs, behind, hrecord, hread, hroot, b, hb, ?_⟩
    rw [hguard, hrecord.keepsRecord.conditions_eq]

/-! ### A cellar -/

/-- The cellar before anything is said of it. -/
def cellar : Page :=
  { name := "cellar" }

/-- What is said of the cellar. The conditions about the lamp and the key have braces, those about
the rats and the rope have none, and the brace of the lamp is open over all of them. -/
def cellarBody : String :=
  "?lamp\x7b?rats[:flee]\"Run!\"?key\x7b[:unlock]\"Click.\"\x7d?rope[:climb]\"Up.\"\x7d[:wait]\"Z\""

/-- The verb behind the closing brace of the key is guarded by the lamp and the rope. -/
theorem Page.guards_enclosed_climb :
    let p := (cellar.ofBody cellarBody ⟨0, 8⟩).1
    let climb : Verb := ⟨"climb", ["climb"], 4⟩
    climb ∈ p.verbs ∧ climb ∉ cellar.verbs ∧
      ∃ record d cs behind,
        Draft.Recorded { page := cellar, origin := ⟨0, 8⟩ } cellarBody.toList record d cs ∧
        (d.declarations [] cs).2 = some (["climb"], behind) ∧ d.page.blocks.length = 4 ∧
        d.Stacked ∧ d.conditions = Above.inScope record ∧
        foldChains (Above.inScope record) = "[?lamp]&[?rope]" := by
  intro p climb
  have hmem : climb ∈ p.verbs := by decide +kernel
  have hnew : climb ∉ cellar.verbs := List.not_mem_nil
  have hroot : p.block? 4 = some ⟨.script, "[?lamp]&[?rope]", [5]⟩ := by decide +kernel
  obtain ⟨-, hstate, hverbs⟩ := Page.guards_enclosed cellar cellarBody ⟨0, 8⟩
  obtain ⟨record, d, cs, behind, hrecord, hread, hlength, b, hb, hguard⟩ := hverbs climb hmem hnew
  obtain ⟨hstacked, hconditions, -⟩ := hstate record d cs hrecord
  cases hroot.symm.trans hb
  exact ⟨hmem, hnew, record, d, cs, behind, hrecord, hread, hlength.symm, hstacked, hconditions,
    hguard.symm⟩

end Gamebook
