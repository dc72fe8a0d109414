import Gamebook.Proofs.Page.Declared
import Gamebook.Proofs.Text.Feedless

/-!
# Texts in pages

The body of a page is cleaned before it is read, so that no escape in it stands for a line feed.
None does in the scripts that are made of it (`Page.feedless_ofBody`). This is an invariant of
reading, for which something has to be known of the text that is left. Statement by statement it is
taken from one character that is not escaped to the next, but for a backslash where no statement
starts: reading goes on with the character behind it. So the text that is left has no such escape,
or it has none behind its first character (`Draft.Loose`).
-/

namespace Gamebook

open Script

/-! ### Stored scripts -/

namespace Text

theorem Feedless.bracketed {kind : Char} {piece rest : List Char} (hkind : kind ≠ '\\')
    (hpiece : Feedless piece) (hrest : Feedless rest) :
    Feedless (('[' :: kind :: piece ++ [']']) ++ rest) := by
  rw [List.append_assoc]
  exact .char (by decide) (.char hkind (hpiece.append_cons (by decide) (by decide) hrest))

/-- What an author wrote is stored without escaped line feeds, if it has none. -/
theorem feedless_chainText {kind : Char} {run : List Char} (hkind : kind ≠ '\\')
    (h : Feedless run) : Feedless (chainText kind run) := by
  -- each later piece stands behind its separator
  have htail : ∀ parts : List (Char × List Char),
      (∀ part ∈ parts, (part.1 == '&' || part.1 == '|') = true ∧ Feedless part.2) →
      Feedless (parts.flatMap fun part => part.1 :: ('[' :: kind :: part.2 ++ [']'])) := by
    intro parts hparts
    induction parts with
    | nil => exact .nil
    | cons part parts ih =>
      obtain ⟨hsep, hpart⟩ := hparts part List.mem_cons_self
      have hne : part.1 ≠ '\\' := by
        intro heq
        rw [heq] at hsep
        exact absurd hsep (by decide)
      have hmore := ih fun p hp => hparts p (List.mem_cons_of_mem part hp)
      exact .char hne (hpart.bracketed hkind hmore)
  obtain ⟨hhead, hpieces⟩ := Feedless.stepwise.splitTopLevel (fun c => c == '&' || c == '|') 0 h
  exact hhead.bracketed hkind (htail _ hpieces)

theorem feedless_foldChains {scripts : List String} (h : ∀ s ∈ scripts, Feedless s.toList) :
    Feedless (foldChains scripts).toList := by
  have hjoined : ∀ scripts : List String, (∀ s ∈ scripts, Feedless s.toList) →
      Feedless ("&".intercalate scripts).toList := by
    intro scripts h
    induction scripts with
    | nil => exact .nil
    | cons s scripts ih =>
      have hs := h s List.mem_cons_self
      cases scripts with
      | nil => rwa [String.intercalate_singleton]
      | cons t scripts =>
        have hrest := ih fun u hu => h u (List.mem_cons_of_mem s hu)
        rw [String.intercalate_cons_cons, String.toList_append, String.toList_append,
          List.append_assoc]
        exact hs.append_cons (by decide) (by decide) hrest
  exact hjoined _ fun s hs => h s (List.mem_filter.mp hs).1

end Text

namespace Draft

/-! ### What is left of a body -/

/-- A text in which no escape stands for a line feed, perhaps but for one that begins with its first
character. -/
def Loose (cs : List Char) : Prop :=
  Text.Feedless cs ∨ Text.Feedless (cs.drop 1)

variable {c : Char} {cs rest : List Char}

/-- Behind a character that escapes nothing all is well. -/
theorem Loose.tail (h : Loose (c :: rest)) (hc : c ≠ '\\') : Text.Feedless rest := by
  rcases h with h | h
  · exact h.tail hc
  · exact h

theorem Loose.feedless (h : Loose (c :: rest)) (hc : c ≠ '\\') : Text.Feedless (c :: rest) :=
  .char hc (h.tail hc)

theorem loose_behind (h : Loose (c :: rest)) : Loose rest := by
  rcases h with h | h
  · cases h with
    | lone => exact .inl .nil
    | escape _ h => exact .inr h
    | char _ h => exact .inl h
  · exact .inl h

/-- A search resumes where it should, even if it starts in the middle of an escape. -/
theorem Loose.drop_find {hit : List Char → Bool} {n : Nat} (h : Loose cs)
    (hn : Text.find hit cs = some n) : Loose (cs.drop n) := by
  revert h
  refine Text.find_induction ?_ ?_ ?_ hn
  · intro cs _ h
    exact h
  · intro c cs n ih h
    -- an escape that starts one character too early leads to one that may do so too
    rcases h with h | h
    · exact ih (.inl h.tail_escape.2)
    · exact ih (loose_behind (.inl h))
  · intro c cs n hc _ ih h
    exact ih (.inl (h.tail hc))

/-- What is known of the end of a text, and of all that is left where a search finds something, is
known of what stands behind a statement. -/
theorem drop_statementLength {P : List Char → Prop} (hnil : P [])
    (hfind : ∀ n, Text.find (Text.startsWithOneOf statementStarts) cs = some n → P (cs.drop n)) :
    P (cs.drop (statementLength cs)) := by
  rw [statementLength]
  cases hn : Text.find (Text.startsWithOneOf statementStarts) cs with
  | none => rwa [Option.getD_none, List.drop_length]
  | some n => exact hfind n hn

theorem feedless_drop_statementLength (h : Text.Feedless cs) :
    Text.Feedless (cs.drop (statementLength cs)) :=
  drop_statementLength .nil fun _ hn => h.drop_find hn

theorem loose_drop_statementLength (h : Loose cs) : Loose (cs.drop (statementLength cs)) :=
  drop_statementLength (.inl .nil) fun _ hn => h.drop_find hn

/-- The name of a declaration whose bracket closes behind so many characters. -/
def declaredName (rest : List Char) (n : Nat) : String :=
  String.ofList (Text.unescape (Text.trim (rest.take (n - 2))))

/-- What is known of the names and of the text that is left while a declaration is read. A name may
be taken or passed over. -/
theorem declarations_rule {P : List String → List Char → Prop}
    (hname : ∀ {names : List String} {rest : List Char} {n : Nat},
      Text.findClose '[' ']' 0 (':' :: rest) = some n → P names ('[' :: ':' :: rest) →
        P names ((':' :: rest).drop n) ∧ P (names ++ [declaredName rest n]) ((':' :: rest).drop n))
    {d : Draft} {names names' : List String} {behind : List Char} (h : P names cs)
    (hread : (d.declarations names cs).2 = some (names', behind)) : P names' behind := by
  induction d, names, cs using Draft.declarations.induct with
  | case1 d names rest hclose =>
    rw [Draft.declarations, hclose] at hread
    cases hread
  | case2 d names rest n hclose _ more hempty ih =>
    rw [Draft.declarations, hclose] at hread
    dsimp only at hread
    rw [if_pos hempty] at hread
    exact ih (hname hclose h).1 hread
  | case3 d names rest n hclose _ more hempty ih =>
    rw [Draft.declarations, hclose] at hread
    dsimp only at hread
    rw [if_neg hempty] at hread
    exact ih (hname hclose h).2 hread
  | case4 d names cs hcs =>
    rw [declarations_eq hcs] at hread
    cases hread
    exact h

/-- Behind the names of a declaration the text goes on. -/
theorem declarations_behind {d : Draft} {names names' : List String} {behind : List Char}
    (h : Text.Feedless cs) (hread : (d.declarations names cs).2 = some (names', behind)) :
    Text.Feedless behind ∧ behind <:+ cs := by
  refine declarations_rule (P := fun _ left => Text.Feedless left ∧ left <:+ cs) ?_
    ⟨h, List.suffix_refl cs⟩ hread
  rintro _ rest n hclose ⟨hfeedless, hsuffix⟩
  have hmore := (hfeedless.tail (by decide)).drop_findClose hclose
  have hbehind := ((List.drop_suffix n _).trans (List.suffix_cons '[' _)).trans hsuffix
  exact ⟨⟨hmore, hbehind⟩, hmore, hbehind⟩

/-- A name that is declared does not end in a carriage return. -/
theorem noReturn_declarations {d : Draft} {names names' : List String} {behind : List Char}
    (h : ∀ name ∈ names, Text.NoReturn name)
    (hread : (d.declarations names cs).2 = some (names', behind)) :
    ∀ name ∈ names', Text.NoReturn name := by
  refine declarations_rule (P := fun names _ => ∀ name ∈ names, Text.NoReturn name) ?_ h hread
  intro names rest n _ hnames
  refine ⟨hnames, fun name hname => ?_⟩
  rcases List.mem_append.mp hname with hname | hname
  · exact hnames name hname
  · rw [List.mem_singleton.mp hname]
    exact Text.noReturn_unescape_trim _

/-- Of what is left behind a statement the same is known. -/
theorem Loose.reads {d : Draft} {n : Nat} (h : Loose (c :: rest)) (hn : Reads d c rest n) :
    Loose (rest.drop n) := by
  cases hn with
  | none hc => exact .inl (h.tail hc)
  | run =>
    -- the character may be a backslash, and the next statement starts within its escape
    exact loose_drop_statementLength (loose_behind h)
  | all =>
    rw [List.drop_length]
    exact .inl .nil
  | text hclose | bracket hclose => exact .inl ((h.tail (by decide)).drop_findClose hclose)
  | @names rest behind names hread =>
    obtain ⟨hbehind, hsuffix⟩ := declarations_behind (h.feedless (by decide)) hread
    -- the statement takes what is not left behind the names, counted from its second character
    rcases List.suffix_cons_iff.mp hsuffix with rfl | hsuffix
    · rw [List.length_cons, Nat.sub_eq_zero_of_le (Nat.le_succ _)]
      exact .inl (h.tail (by decide))
    · rw [← List.suffix_iff_eq_drop.mp hsuffix]
      exact .inl hbehind
  | @brace c rest behind n hc hn hbehind =>
    have hdrop : Text.Feedless (rest.drop n) := by
      rcases hn with rfl | rfl
      · exact h.tail hc
      · exact feedless_drop_statementLength (h.tail hc)
    rw [hbehind] at hdrop
    rw [← List.drop_drop, hbehind]
    exact .inl (hdrop.tail (by decide))

end Draft

/-! ### Scripts of a page -/

/-- No escape in a script of a page stands for a line feed. -/
def Page.Feedless (p : Page) : Prop :=
  p.EveryScript fun expression => Text.Feedless expression.toList

namespace Draft

variable {d e d' : Draft} {c : Char} {cs rest : List Char} {a : Option Above}

/-- The stored form of a script that an author wrote. -/
theorem feedless_stored {kind : Char} (hkind : kind ≠ '\\') (h : Text.Feedless rest) (n : Nat) :
    Text.Feedless (String.ofList (chainText kind (rest.take n))).toList := by
  rw [String.toList_ofList]
  exact Text.feedless_chainText hkind (h.take n)

/-- No script of a draft has an escape that stands for a line feed. -/
structure Tame (d : Draft) : Prop where
  page : d.page.Feedless
  pending : ∀ p ∈ d.pending, Text.Feedless p.expression.toList

theorem Tame.settle (h : d.Tame) (hd : Settles d e) : e.Tame :=
  ⟨Page.EveryScript.of_blocks_eq h.page hd.blocks, fun p hp => h.pending p (hd.pending ▸ hp)⟩

theorem Tame.conditions (h : d.Tame) : Text.Feedless (foldChains d.conditions).toList := by
  refine Text.feedless_foldChains fun s hs => ?_
  obtain ⟨p, hp, rfl⟩ := List.mem_map.mp hs
  exact h.pending p (List.mem_reverse.mp hp)

/-- What an author wrote is put into a verb without escaped line feeds, if it has none. -/
theorem Puts.feedless {v : OpenVerb} {b : Block} {scope : Option Bool} (h : Loose (c :: rest))
    (hputs : Puts d c rest e v b scope) (hb : b.isExecuted) :
    Text.Feedless b.expression.toList := by
  cases hputs with
  | text => cases hb
  | instruction hstored =>
    exact hstored ▸ feedless_stored (by decide) (h.tail (by decide)) _
  | condition => exact feedless_stored (by decide) (h.tail (by decide)) _
  | otherwise => exact .nil

/-- One statement keeps a draft tame. -/
theorem Tame.step (hd : d.Tame) (h : Loose (c :: rest)) : (d.step c rest).1.Tame := by
  obtain ⟨e, hsettles, hchange⟩ := stepped_step d c rest
  have he := hd.settle hsettles
  refine ⟨hchange.everyScript he.page (Puts.feedless h) hd.conditions, fun p hp => ?_⟩
  rcases hchange.mem_pending hp with hp | ⟨rfl, heq, -⟩
  · exact he.pending p hp
  · rw [heq]
    exact feedless_stored (by decide) (h.tail (by decide)) _

/-- Every draft that reading comes to is tame. -/
theorem Reached.tame {first : Draft} {body : List Char} (hfirst : first.Tame)
    (hbody : Text.Feedless body) (h : Reached first body d cs) : d.Tame ∧ Loose cs := by
  induction h with
  | start => exact ⟨hfirst, .inl hbody⟩
  | @step d c rest _ ih => exact ⟨ih.1.step ih.2, ih.2.reads (reads_step d c rest)⟩

end Draft

/-! ### Pages -/

variable {noun : String} {defaults : Value} {body : String} {origin : Span} {v : Verb}

/-- The page of a noun, before its body is read. -/
theorem Draft.tame_start (noun : String) (defaults : Value) (origin : Span) :
    Draft.Tame { page := { name := noun, defaults }, origin } :=
  ⟨by simp [Page.Feedless, Page.EveryScript], by simp⟩

/-- A body without escaped line feeds has none in its scripts. -/
theorem Page.feedless_ofBody (h : Text.Feedless body.toList) :
    (Page.ofBody { name := noun, defaults } body origin).1.Feedless := by
  have hreached : Draft.Reached { page := { name := noun, defaults }, origin } body.toList _ [] :=
    Draft.Reached.start.run
  exact ((hreached.tame (Draft.tame_start noun defaults origin) h).1.settle (.finish _)).page

/-- A body without escaped line feeds has none in the guards of its verbs. -/
theorem Page.feedless_guard_ofBody (h : Text.Feedless body.toList)
    (hv : v ∈ (Page.ofBody { name := noun, defaults } body origin).1.verbs) {b : Block}
    (hb : (Page.ofBody { name := noun, defaults } body origin).1.block? v.root = some b) :
    Text.Feedless b.expression.toList := by
  obtain ⟨conditions, ⟨d, cs, behind, hreached, -, -, -, rfl⟩, ⟨b', hb', hguard⟩, -⟩ :=
    Page.guards_ofBody hv (by simp)
  obtain rfl : b' = b := Option.some.inj (hb'.symm.trans hb)
  rw [hguard]
  exact (hreached.tame (Draft.tame_start noun defaults origin) h).1.conditions

/-- No verb of a page has a name that ends in a carriage return. -/
theorem Page.noReturn_ofBody
    (hv : v ∈ (Page.ofBody { name := noun, defaults } body origin).1.verbs) :
    ∀ name ∈ v.names, Text.NoReturn name := by
  obtain ⟨conditions, ⟨d, cs, behind, -, hread, -⟩, -⟩ := Page.guards_ofBody hv (by simp)
  exact Draft.noReturn_declarations (by simp) hread

end Gamebook
