import Gamebook.Proofs.Text.Cleaning

/-!
# Quoted texts

The quotes of a text that are not escaped cut it into parts: scripts and quoted texts take turns
(`mem_texts_iff`). Cleaning counts the markers `<` and `>` in a quoted text, and a quote inside of a
marker does not end the text for it. So it only sees the same texts as a reader of quotes if each
text closes the markers that it opens. Then cleaning takes each of them by itself, and puts those
together that stand next to each other (`texts_clean`).
-/

namespace Gamebook.Text

/-! ### Parts -/

/-- The parts of a text between its quotes. -/
def quoteParts : List Char → List (List Char)
  | [] => [[]]
  | '\\' :: c :: rest => ontoFirst '\\' (ontoFirst c (quoteParts rest))
  | c :: rest => if c = '"' then [] :: quoteParts rest else ontoFirst c (quoteParts rest)

/-- The quoted texts among some parts. The last part is none of them, since no quote ends it. -/
def texts : List (List Char) → List (List Char)
  | _ :: text :: script :: rest => text :: texts (script :: rest)
  | _ => []

/-- The quoted texts among some parts, with those together that have only white space between them.
Texts together with the last part are left out. -/
def textGroups : List (List Char) → List (List (List Char))
  | _ :: text :: script :: rest =>
    if isBlank script ∧ rest ≠ [] then (textGroups (script :: rest)).modifyHead (text :: ·)
    else [text] :: textGroups (script :: rest)
  | _ => []

/-- Whether a quoted text closes the markers that it opens. -/
def Balanced (text : List Char) : Prop :=
  (Place.text 0).after text = .text 0

instance (text : List Char) : Decidable (Balanced text) :=
  inferInstanceAs (Decidable ((Place.text 0).after text = .text 0))

theorem quoteParts_char {c : Char} (hc : c ≠ '\\') (cs : List Char) : quoteParts (c :: cs) =
    if c = '"' then [] :: quoteParts cs else ontoFirst c (quoteParts cs) := by
  rw [quoteParts]
  rintro _ _ rfl
  exact absurd rfl hc

theorem length_lt_append_cons (part : List Char) (c : Char) (rest : List Char) :
    rest.length < (part ++ c :: rest).length := by
  rw [List.length_append, List.length_cons]
  omega

theorem ontoFirst_eq_cons {α : Type} (a : α) (pieces : List (List α)) :
    ∃ piece more, ontoFirst a pieces = (a :: piece) :: more := by
  cases pieces with
  | nil => exact ⟨[], [], rfl⟩
  | cons piece more => exact ⟨piece, more, rfl⟩

theorem quoteParts_eq_cons (cs : List Char) : ∃ part parts, quoteParts cs = part :: parts := by
  cases cs using escape_induction with
  | nil => exact ⟨[], [], rfl⟩
  | lone => exact ⟨['\\'], [], rfl⟩
  | escape c cs =>
    obtain ⟨part, parts, heq⟩ := ontoFirst_eq_cons '\\' (ontoFirst c (quoteParts cs))
    exact ⟨_, _, heq⟩
  | char c cs hc =>
    rw [quoteParts_char hc]
    split
    · exact ⟨[], _, rfl⟩
    · obtain ⟨part, parts, heq⟩ := ontoFirst_eq_cons c (quoteParts cs)
      exact ⟨_, _, heq⟩

/-- What stands in front of a text without quotes belongs to its first part. -/
theorem quoteParts_append {front : List Char} (h : Masked (· ≠ '"') front) (cs : List Char) :
    ∃ part parts, quoteParts cs = part :: parts ∧
      quoteParts (front ++ cs) = (front ++ part) :: parts := by
  obtain ⟨part, parts, hparts⟩ := quoteParts_eq_cons cs
  refine ⟨part, parts, hparts, ?_⟩
  induction h with
  | nil => exact hparts
  | escape c _ ih =>
    rw [List.cons_append, List.cons_append, quoteParts, ih]
    rfl
  | char hc hquote _ ih =>
    rw [List.cons_append, quoteParts_char hc, if_neg hquote, ih]
    rfl

/-- The part in front of a quote. -/
theorem quoteParts_quote {front : List Char} (h : Masked (· ≠ '"') front) (cs : List Char) :
    quoteParts (front ++ '"' :: cs) = front :: quoteParts cs := by
  obtain ⟨part, parts, hparts, happend⟩ := quoteParts_append h ('"' :: cs)
  rw [quoteParts_char (by decide), if_pos rfl] at hparts
  obtain ⟨rfl, rfl⟩ := List.cons.inj hparts
  rw [happend, List.append_nil]

/-- A text has one part, or there is a part in front of its first quote. -/
theorem quoteParts_cases (cs : List Char) : quoteParts cs = [cs] ∨
    ∃ part rest, Masked (· ≠ '"') part ∧ cs = part ++ '"' :: rest := by
  induction cs using escape_induction with
  | nil => exact .inl rfl
  | lone => exact .inl rfl
  | escape c cs ih =>
    rcases ih with hsingle | ⟨part, rest, hpart, rfl⟩
    · left
      rw [quoteParts, hsingle]
      rfl
    · exact .inr ⟨'\\' :: c :: part, rest, .escape c hpart, rfl⟩
  | char c cs hc ih =>
    by_cases hquote : c = '"'
    · exact .inr ⟨[], cs, .nil, by rw [hquote]; rfl⟩
    · rcases ih with hsingle | ⟨part, rest, hpart, rfl⟩
      · left
        rw [quoteParts_char hc, if_neg hquote, hsingle]
        rfl
      · exact .inr ⟨c :: part, rest, .char hc hquote hpart, rfl⟩

/-- Between two quotes stands a quoted text. -/
theorem texts_cons (script text rest : List Char) :
    texts (script :: text :: quoteParts rest) = text :: texts (quoteParts rest) := by
  obtain ⟨script', parts, hparts⟩ := quoteParts_eq_cons rest
  rw [hparts, texts]

/-- Texts do not depend on the script in front of them. -/
theorem texts_script (script script' : List Char) (parts : List (List Char)) :
    texts (script :: parts) = texts (script' :: parts) := by
  match parts with
  | [] | [_] | _ :: _ :: _ => rfl

theorem textGroups_script (script script' : List Char) (parts : List (List Char)) :
    textGroups (script :: parts) = textGroups (script' :: parts) := by
  match parts with
  | [] | [_] => rfl
  | _ :: _ :: _ => rw [textGroups, textGroups]

/-- What stands in front of a text without quotes changes none of the parts behind a quote. -/
theorem tail_append {front : List Char} (h : Masked (· ≠ '"') front) (cs : List Char) :
    (quoteParts (front ++ cs)).tail = (quoteParts cs).tail := by
  obtain ⟨part, parts, hparts, happend⟩ := quoteParts_append h cs
  rw [hparts, happend]
  rfl

theorem quoteParts_of_tail {cs ds : List Char} (h : (quoteParts cs).tail = (quoteParts ds).tail) :
    ∃ script script' parts, quoteParts cs = script :: parts ∧ quoteParts ds = script' :: parts := by
  obtain ⟨script, parts, hparts⟩ := quoteParts_eq_cons cs
  obtain ⟨script', parts', hparts'⟩ := quoteParts_eq_cons ds
  rw [hparts, hparts', List.tail_cons, List.tail_cons] at h
  exact ⟨script, script', parts, hparts, h ▸ hparts'⟩

theorem texts_of_tail {cs ds : List Char} (h : (quoteParts cs).tail = (quoteParts ds).tail) :
    texts (quoteParts cs) = texts (quoteParts ds) := by
  obtain ⟨script, script', parts, hcs, hds⟩ := quoteParts_of_tail h
  rw [hcs, hds, texts_script]

/-- The groups hold the texts in their order, up to the last one that ends. -/
theorem flatten_textGroups (parts : List (List Char)) :
    (textGroups parts).flatten <+: texts parts ∧
      (parts.length % 2 = 1 → (textGroups parts).flatten = texts parts) := by
  induction parts using texts.induct with
  | case1 script text script' rest ih =>
    rw [textGroups, texts]
    split
    next hblank =>
      cases hgroups : textGroups (script' :: rest) with
      | nil =>
        rw [hgroups] at ih
        refine ⟨List.nil_prefix, fun hlength => ?_⟩
        -- there is a text in the rest, and it has no group
        have hnone := ih.2 (by simp only [List.length_cons] at hlength ⊢; omega)
        match rest, hblank.2 with
        | [_], _ => simp at hlength
        | _ :: _ :: _, _ => cases hnone
      | cons group groups =>
        rw [hgroups, List.flatten_cons] at ih
        rw [List.modifyHead_cons, List.flatten_cons, List.cons_append]
        refine ⟨List.cons_prefix_cons.mpr ⟨rfl, ih.1⟩, fun hlength => ?_⟩
        rw [ih.2 (by simp only [List.length_cons] at hlength ⊢; omega)]
    next =>
      rw [List.flatten_cons, List.singleton_append]
      refine ⟨List.cons_prefix_cons.mpr ⟨rfl, ih.1⟩, fun hlength => ?_⟩
      rw [ih.2 (by simp only [List.length_cons] at hlength ⊢; omega)]
  | case2 parts hparts =>
    have hnone : textGroups parts = [] ∧ texts parts = [] := by
      match parts, hparts with
      | [], _ | [_], _ | [_, _], _ => exact ⟨rfl, rfl⟩
      | a :: b :: c :: rest, hparts => exact absurd rfl (hparts a b c rest)
    rw [hnone.1, hnone.2]
    exact ⟨List.nil_prefix, fun _ => rfl⟩

/-! ### Texts without quotes -/

/-- Whether a text has no quotes but escaped ones. -/
def Unquoted (cs : List Char) : Prop :=
  (quoteParts cs).tail = []

namespace Unquoted

variable {cs : List Char}

theorem of_tail {ds : List Char} (h : (quoteParts cs).tail = (quoteParts ds).tail)
    (hcs : Unquoted cs) : Unquoted ds :=
  h.symm.trans hcs

theorem parts (h : Unquoted cs) : ∃ part, quoteParts cs = [part] := by
  obtain ⟨part, parts, hparts⟩ := quoteParts_eq_cons cs
  rw [Unquoted, hparts, List.tail_cons] at h
  exact ⟨part, h ▸ hparts⟩

theorem of_not_mem (h : '"' ∉ cs) : Unquoted cs := by
  rcases quoteParts_cases cs with hsingle | ⟨part, rest, -, rfl⟩
  · rw [Unquoted, hsingle, List.tail_cons]
  · exact absurd (List.mem_append_right part List.mem_cons_self) h

theorem of_escape {c : Char} (h : Unquoted ('\\' :: c :: cs)) : Unquoted cs :=
  .of_tail (tail_append (.escape c .nil) cs) h

theorem of_char {c : Char} (hc : c ≠ '\\') (h : Unquoted (c :: cs)) : c ≠ '"' ∧ Unquoted cs := by
  have hquote : c ≠ '"' := by
    rintro rfl
    obtain ⟨part, parts, hparts⟩ := quoteParts_eq_cons cs
    rw [Unquoted, quoteParts_char hc, if_pos rfl, List.tail_cons, hparts] at h
    cases h
  exact ⟨hquote, .of_tail (tail_append (.char hc hquote .nil) cs) h⟩

/-- Nothing ends a quoted text if no quote is left. -/
theorem findClose (h : Unquoted cs) (depth : Nat) : findClose '"' '"' depth cs = none := by
  induction cs using escape_induction with
  | nil => rw [Text.findClose]
  | lone => exact findClose_lone_escape depth
  | escape c cs ih => rw [findClose_escape, ih h.of_escape, Option.map_none]
  | char c cs hc ih =>
    obtain ⟨hquote, hcs⟩ := h.of_char hc
    rw [findClose_char hc hquote hquote, ih hcs, Option.map_none]

end Unquoted

/-! ### Where quoted texts stand -/

/-- Whether all quoted texts of a text end. -/
def Closed (cs : List Char) : Prop :=
  (quoteParts cs).length % 2 = 1

theorem Closed.of_tail {cs ds : List Char} (h : (quoteParts cs).tail = (quoteParts ds).tail)
    (hcs : Closed cs) : Closed ds := by
  obtain ⟨script, script', parts, hparts, hds⟩ := quoteParts_of_tail h
  rw [Closed, hparts] at hcs
  rw [Closed, hds]
  exact hcs

theorem closed_append {front : List Char} (h : Masked (· ≠ '"') front) {cs : List Char} :
    Closed (front ++ cs) ↔ Closed cs :=
  ⟨.of_tail (tail_append h cs), .of_tail (tail_append h cs).symm⟩

theorem closed_quote {cs : List Char} : Closed ('"' :: cs) ↔ ¬ Closed cs := by
  have hlength : (quoteParts ('"' :: cs)).length = (quoteParts cs).length + 1 := rfl
  rw [Closed, Closed, hlength]
  omega

/-- A quote with complete escapes in front of it separates the parts on its two sides. -/
theorem quoteParts_append_quote {front : List Char} (h : Masked (fun _ => True) front)
    (cs : List Char) : quoteParts (front ++ '"' :: cs) = quoteParts front ++ quoteParts cs := by
  induction h with
  | nil => rfl
  | @escape c front _ ih =>
    obtain ⟨part, parts, hparts⟩ := quoteParts_eq_cons front
    rw [List.cons_append, List.cons_append, quoteParts, quoteParts, ih, hparts]
    rfl
  | @char c front hc _ _ ih =>
    obtain ⟨part, parts, hparts⟩ := quoteParts_eq_cons front
    rw [List.cons_append, quoteParts_char hc, quoteParts_char hc, ih, hparts]
    split <;> rfl

/-- Behind an odd number of parts comes a quoted text, if it ends. -/
theorem texts_append_of_odd {parts : List (List Char)} (h : parts.length % 2 = 1)
    (more : List (List Char)) : texts (parts ++ more) = texts parts ++ texts ([] :: more) := by
  induction parts using texts.induct with
  | case1 script text script' rest ih =>
    simp only [List.length_cons] at h ih
    exact congrArg (text :: ·) (ih (by omega))
  | case2 parts hparts =>
    match parts, hparts with
    | [script], _ => exact texts_script script [] more
    | [], _ | [_, _], _ => simp at h
    | a :: b :: c :: rest, hparts => exact absurd rfl (hparts a b c rest)

/-- **A quoted text stands between two quotes that are not escaped**, with no other in between, and
in front of it all quoted texts have ended. -/
theorem mem_texts_iff {cs text : List Char} : text ∈ texts (quoteParts cs) ↔
    ∃ front behind, cs = front ++ '"' :: (text ++ '"' :: behind) ∧
      Masked (fun _ => True) front ∧ Closed front ∧ Masked (· ≠ '"') text := by
  refine ⟨fun h => ?_, ?_⟩
  · induction hn : cs.length using Nat.strongRecOn generalizing cs with
    | ind n ih =>
      subst hn
      rcases quoteParts_cases cs with hsingle | ⟨script, rest, hscript, rfl⟩
      · rw [hsingle] at h
        cases h
      rw [quoteParts_quote hscript] at h
      have hanything : Masked (fun _ => True) script := hscript.mono fun _ _ => trivial
      have hclosed : Closed script := by
        rw [← List.append_nil script, closed_append hscript]
        rfl
      rcases quoteParts_cases rest with hsingle | ⟨first, behind, hfirst, rfl⟩
      · rw [hsingle] at h
        cases h
      rw [quoteParts_quote hfirst, texts_cons] at h
      rcases List.mem_cons.mp h with rfl | h
      · exact ⟨script, behind, rfl, hanything, hclosed, hfirst⟩
      · have hlength := Nat.lt_trans (length_lt_append_cons first '"' behind)
          (length_lt_append_cons script '"' (first ++ '"' :: behind))
        obtain ⟨front, behind, rfl, hfront, hfrontClosed, htext⟩ := ih _ hlength h rfl
        refine ⟨script ++ '"' :: (first ++ '"' :: front), behind, by simp, ?_, ?_, htext⟩
        · exact hanything.append (.char (by decide) trivial
            ((hfirst.mono fun _ _ => trivial).append (.char (by decide) trivial hfront)))
        · rw [closed_append hscript, closed_quote, closed_append hfirst, closed_quote, not_not]
          exact hfrontClosed
  · rintro ⟨front, behind, rfl, hfront, hclosed, htext⟩
    rw [quoteParts_append_quote hfront, texts_append_of_odd hclosed, quoteParts_quote htext,
      texts_cons]
    exact List.mem_append_right _ List.mem_cons_self

/-- A quoted text ends with no escape open. -/
theorem masked_of_mem_texts {cs text : List Char} (h : text ∈ texts (quoteParts cs)) :
    Masked (· ≠ '"') text := by
  obtain ⟨front, behind, -, -, -, htext⟩ := mem_texts_iff.mp h
  exact htext

/-! ### Searches -/

/-- In front of what a search for quotes and other marks finds, there is no quote. -/
theorem masked_take_of_find {hit : List Char → Bool} (hhit : ∀ rest, hit ('"' :: rest) = true)
    {cs : List Char} {n : Nat} (h : find hit cs = some n) : Masked (· ≠ '"') (cs.take n) := by
  refine find_induction ?_ ?_ ?_ h
  · intro cs _
    exact .nil
  · intro c cs n ih
    exact .escape c ih
  · intro c cs n hc hmiss ih
    refine .char hc ?_ ih
    rintro rfl
    exact Bool.false_ne_true (hmiss.symm.trans (hhit cs))

/-- If nothing is found, there is no quote at all. -/
theorem unquoted_of_find {hit : List Char → Bool} (hhit : ∀ rest, hit ('"' :: rest) = true)
    {cs : List Char} (h : find hit cs = none) : Unquoted cs := by
  induction cs using escape_induction with
  | nil => rfl
  | lone => rfl
  | escape c cs ih =>
    rw [find_escape, Option.map_eq_none_iff] at h
    exact (tail_append (.escape c .nil) cs).trans (ih h)
  | char c cs hc ih =>
    rw [find_char hc] at h
    split at h
    · cases h
    next hmiss =>
      rw [Option.map_eq_none_iff] at h
      refine (tail_append (.char hc ?_ .nil) cs).trans (ih h)
      rintro rfl
      exact hmiss (hhit cs)

/-- Behind what closes a bracket no escape is open. -/
theorem masked_take_of_findClose {opening closing : Char} {cs : List Char} {depth n : Nat}
    (h : findClose opening closing depth cs = some n) : Masked (fun _ => True) (cs.take n) := by
  refine findClose_induction ?_ ?_ ?_ h
  · intro _ cs hclosing _
    exact .char hclosing trivial .nil
  · intro _ c cs n ih
    exact .escape c ih
  · intro _ _ c cs n hc _ ih
    exact .char hc trivial ih

theorem Masked.of_not_mem {cs : List Char} (h : Masked (fun _ => True) cs) (hquote : '"' ∉ cs) :
    Masked (· ≠ '"') cs := by
  induction h with
  | nil => exact .nil
  | escape c _ ih =>
    exact .escape c (ih fun hmem => hquote (List.mem_cons_of_mem _ (List.mem_cons_of_mem c hmem)))
  | char hc _ _ ih =>
    refine .char hc ?_ (ih fun hmem => hquote (List.mem_cons_of_mem _ hmem))
    rintro rfl
    exact hquote List.mem_cons_self

/-- A part without quotes, behind which no escape is open, can be left out. -/
theorem tail_drop {cs : List Char} {n : Nat} (h : Masked (fun _ => True) (cs.take n))
    (hquote : '"' ∉ cs.take n) : (quoteParts (cs.drop n)).tail = (quoteParts cs).tail := by
  rw [← tail_append (h.of_not_mem hquote), List.take_append_drop]

/-! ### Cleaning -/

/-- Cleaning brings no quotes into a text without them, even if the text ends in an escape. -/
theorem Unquoted.cleanFrom {cs : List Char} (h : Unquoted cs) (place : Place)
    (last : Option Char) : Unquoted (cleanFrom place last cs) := by
  induction cs using run_induction generalizing place last with
  | nil =>
    rw [Text.cleanFrom]
    exact h
  | lone =>
    rw [Text.cleanFrom]
    exact h
  | escape c cs ih =>
    have hcs := ih h.of_escape
    by_cases hn : c = 'n'
    · subst hn
      rw [cleanFrom_feed]
      exact (tail_append (.char (by decide) (by decide) .nil) _).trans (hcs _ _)
    · rw [cleanFrom_hidden hn]
      exact (tail_append (.escape c .nil) _).trans (hcs _ _)
  | run run cs hne hrun hhead ih =>
    have hcs : Unquoted cs := .of_tail (tail_append (masked_of_blank hrun) cs) h
    rw [cleanFrom_run hne hrun hhead]
    exact (tail_append (masked_of_blank fun c hc => isSpace_of_mem_cleanRun hrun hc) _).trans
      (ih hcs _ _)
  | char c cs hc hspace ih =>
    obtain ⟨hquote, hcs⟩ := h.of_char hc
    rw [cleanFrom_char hc hspace fun hseam => hquote hseam.2.1]
    exact (tail_append (.char hc hquote .nil) _).trans (ih hcs _ _)

/-- What is left of some quoted texts that become one. -/
def joined (group : List (List Char)) : List Char :=
  ['\n'].intercalate (group.map kept)

/-- A script in front of a quote. -/
theorem cleanFrom_script_quote {part : List Char} (h : Masked (· ≠ '"') part) (last : Option Char)
    (rest : List Char) : cleanFrom .script last (part ++ '"' :: rest) =
      cleanFrom .script last part ++ '"' :: cleanFrom (.text 0) (some '"') rest := by
  rw [cleanFrom_append_part h fun _ => ⟨by rintro c ⟨⟩; rfl, .inr rfl⟩, Place.script_after h,
    cleanFrom_char (by decide) (by decide) (by simp), Place.step, if_pos rfl]

/-- A quoted text in front of its end. -/
theorem cleanFrom_text_quote {part : List Char} (h : Masked (· ≠ '"') part) (hpart : Balanced part)
    (last : Option Char) (rest : List Char) : cleanFrom (.text 0) last (part ++ '"' :: rest) =
      kept part ++ kept ('"' :: rest) := by
  rw [cleanFrom_append_part h fun _ => ⟨by rintro c ⟨⟩; rfl, .inl hpart⟩, hpart, cleanFrom_text,
    cleanFrom_text]

/-- In front of another quoted text the quote at the end of a text goes, with the one behind it. -/
theorem kept_seam {rest : List Char} (h : (trimStart rest).head? = some '"') :
    kept ('"' :: rest) = '\n' :: kept ((trimStart rest).drop 1) := by
  rw [kept, cleanFrom_seam h, cleanFrom_text]

/-- In front of anything else it stays, and a script begins. -/
theorem kept_quote {rest : List Char} (h : (trimStart rest).head? ≠ some '"') :
    kept ('"' :: rest) = '"' :: cleanFrom .script (some '"') rest := by
  rw [kept, cleanFrom_char (by decide) (by decide) fun hseam => h hseam.2.2]
  rfl

/-- Behind a quoted text there is white space in front of another one, or there is not. -/
theorem seam_cases (cs : List Char) :
    ((trimStart cs).head? = some '"' ∧ ∃ blank rest, isBlank blank = true ∧
      cs = blank ++ '"' :: rest ∧ (trimStart cs).drop 1 = rest) ∨
    ((trimStart cs).head? ≠ some '"' ∧ ∃ script parts, quoteParts cs = script :: parts ∧
      ¬ (isBlank script = true ∧ parts ≠ [])) := by
  by_cases hseam : (trimStart cs).head? = some '"'
  · obtain ⟨rest, hrest⟩ := List.head?_eq_some_iff.mp hseam
    refine .inl ⟨hseam, cs.takeWhile isSpace, rest, List.all_takeWhile, ?_, by rw [hrest]; rfl⟩
    rw [← hrest, trimStart, List.takeWhile_append_dropWhile]
  · obtain ⟨script, parts, hparts⟩ := quoteParts_eq_cons cs
    refine .inr ⟨hseam, script, parts, hparts, ?_⟩
    rintro ⟨hblank, hne⟩
    refine hseam ?_
    rcases quoteParts_cases cs with hsingle | ⟨part, rest, hpart, rfl⟩
    · rw [hsingle] at hparts
      exact absurd (List.cons.inj hparts).2.symm hne
    · rw [quoteParts_quote hpart] at hparts
      rw [← (List.cons.inj hparts).1] at hblank
      rw [trimStart, List.dropWhile_append_of_pos (List.all_eq_true.mp hblank)]
      rfl

theorem joined_cons {text : List Char} {group : List (List Char)} (h : group ≠ []) :
    joined (text :: group) = kept text ++ '\n' :: joined group := by
  obtain ⟨next, group, rfl⟩ := List.exists_cons_of_ne_nil h
  rw [joined, joined, List.map_cons, List.map_cons, List.intercalate_cons_cons, List.append_assoc]
  rfl

/-- No group is empty. -/
theorem ne_nil_of_mem_textGroups {parts group : List (List Char)} (h : group ∈ textGroups parts) :
    group ≠ [] := by
  induction parts using texts.induct generalizing group with
  | case1 script text script' rest ih =>
    rw [textGroups] at h
    split at h
    · cases hgroups : textGroups (script' :: rest) with
      | nil =>
        rw [hgroups] at h
        cases h
      | cons first groups =>
        rw [hgroups, List.modifyHead_cons] at h
        rcases List.mem_cons.mp h with rfl | h
        · exact List.cons_ne_nil _ _
        · exact ih (hgroups ▸ List.mem_cons_of_mem first h)
    · rcases List.mem_cons.mp h with rfl | h
      · exact List.cons_ne_nil _ _
      · exact ih h
  | case2 parts hparts =>
    match parts, hparts with
    | [], _ | [_], _ | [_, _], _ => cases h
    | a :: b :: c :: rest, hparts => exact absurd rfl (hparts a b c rest)

/-- A text in front of a group is read as a part of the first text that it has. -/
theorem texts_joined {groups : List (List (List Char))} (hne : ∀ group ∈ groups, group ≠ [])
    {next : List Char} {others : List (List Char)}
    (h : texts ([] :: next :: others) = groups.map joined) (text : List Char) :
    texts ([] :: (kept text ++ '\n' :: next) :: others) =
      (groups.modifyHead (text :: ·)).map joined := by
  cases others with
  | nil => rw [List.map_eq_nil_iff.mp h.symm]; rfl
  | cons script others =>
    obtain ⟨group, groups, rfl, hgroup, hgroups⟩ := List.map_eq_cons_iff.mp h.symm
    rw [List.modifyHead_cons, List.map_cons, joined_cons (hne group List.mem_cons_self), hgroup,
      hgroups]
    rfl

/-- A quoted text in front of another one, with nothing but white space between them. -/
theorem texts_seam {part blank more : List Char} (hpart : Masked (· ≠ '"') part)
    (hblank : isBlank blank = true)
    (h : texts ([] :: quoteParts (kept more)) = (textGroups ([] :: quoteParts more)).map joined) :
    texts ([] :: quoteParts (kept part ++ '\n' :: kept more)) =
      (textGroups ([] :: part :: blank :: quoteParts more)).map joined := by
  have hne : quoteParts more ≠ [] := by
    obtain ⟨script, parts, heq⟩ := quoteParts_eq_cons more
    rw [heq]
    exact List.cons_ne_nil script parts
  have hfront : Masked (· ≠ '"') (kept part ++ ['\n']) :=
    (masked_cleanFrom hpart).append (.char (by decide) (by decide) .nil)
  obtain ⟨next, others, hnext, happend⟩ := quoteParts_append hfront (kept more)
  rw [List.append_assoc, List.append_assoc, List.singleton_append, List.singleton_append] at happend
  rw [hnext] at h
  rw [happend, textGroups, if_pos ⟨hblank, hne⟩, textGroups_script blank []]
  exact texts_joined (fun _ => ne_nil_of_mem_textGroups) h part

/-- A quoted text with more than white space behind it, or with no other text behind it. -/
theorem texts_apart {part rest script : List Char} {parts : List (List Char)}
    (hpart : Masked (· ≠ '"') part) (hrest : quoteParts rest = script :: parts)
    (hshown : ¬ (isBlank script = true ∧ parts ≠ []))
    (h : texts (quoteParts (cleanFrom .script (some '"') rest)) =
      (textGroups (quoteParts rest)).map joined) :
    texts ([] :: quoteParts (kept part ++ '"' :: cleanFrom .script (some '"') rest)) =
      (textGroups ([] :: part :: quoteParts rest)).map joined := by
  have hkept : Masked (· ≠ '"') (kept part) := masked_cleanFrom hpart
  have hsingle : joined [part] = kept part := List.intercalate_singleton
  rw [quoteParts_quote hkept, texts_cons, h, hrest, textGroups, if_neg hshown, List.map_cons,
    hsingle]

/-- The quoted texts behind a quote, and in a script. -/
theorem texts_cleanFrom (cs : List Char) (last : Option Char) :
    ((∀ text ∈ texts (quoteParts cs), Balanced text) →
      texts (quoteParts (cleanFrom .script last cs)) = (textGroups (quoteParts cs)).map joined) ∧
    ((∀ text ∈ texts ([] :: quoteParts cs), Balanced text) →
      texts ([] :: quoteParts (cleanFrom (.text 0) last cs)) =
        (textGroups ([] :: quoteParts cs)).map joined) := by
  induction hn : cs.length using Nat.strongRecOn generalizing cs last with
  | ind n ih =>
    subst hn
    rcases quoteParts_cases cs with hsingle | ⟨part, rest, hpart, rfl⟩
    · -- no quote is left
      have hnone : Unquoted cs := by rw [Unquoted, hsingle, List.tail_cons]
      obtain ⟨script, hscript⟩ := (hnone.cleanFrom .script last).parts
      obtain ⟨text, htext⟩ := (hnone.cleanFrom (.text 0) last).parts
      rw [hsingle, hscript, htext]
      exact ⟨fun _ => rfl, fun _ => rfl⟩
    · have hrest := fun last => ih rest.length (length_lt_append_cons part '"' rest) rest last rfl
      rw [quoteParts_quote hpart]
      refine ⟨fun hbalanced => ?_, fun hbalanced => ?_⟩
      · rw [texts_script _ []] at hbalanced
        rw [cleanFrom_script_quote hpart, quoteParts_quote (masked_cleanFrom hpart),
          texts_script _ [], textGroups_script _ []]
        exact (hrest _).2 hbalanced
      · rw [texts_cons, List.forall_mem_cons] at hbalanced
        obtain ⟨hfirst, hlater⟩ := hbalanced
        rw [cleanFrom_text_quote hpart hfirst]
        rcases seam_cases rest with ⟨hseam, blank, more, hblank, rfl, hmore⟩ |
          ⟨hseam, script, parts, hscript, hshown⟩
        · -- the quotes go, and the next text goes on
          have hgap := masked_of_blank (List.all_eq_true.mp hblank)
          have hshorter := Nat.lt_trans (length_lt_append_cons blank '"' more)
            (length_lt_append_cons part '"' (blank ++ '"' :: more))
          rw [quoteParts_quote hgap, texts_script _ []] at hlater
          have hgroups := (ih more.length hshorter more none rfl).2 hlater
          rw [cleanFrom_text] at hgroups
          rw [quoteParts_quote hgap, kept_seam hseam, hmore]
          exact texts_seam hpart hblank hgroups
        · rw [kept_quote hseam]
          exact texts_apart hpart hscript hshown ((hrest (some '"')).1 hlater)

/-- **Cleaning and reading agree on what is quoted text.** If every quoted text closes the markers
that it opens, the quoted texts of what cleaning leaves are those of the text itself, each cleaned
by itself. Those with nothing but white space between them have become one, with line feeds at the
seams. -/
theorem texts_clean {cs : List Char} (h : ∀ text ∈ texts (quoteParts cs), Balanced text) :
    texts (quoteParts (clean cs)) = (textGroups (quoteParts cs)).map joined :=
  (texts_cleanFrom cs none).1 h

/-! ### Texts that end -/

/-- Cleaning takes quotes away in pairs. -/
theorem closed_cleanFrom (place : Place) (last : Option Char) (cs : List Char) :
    Closed (cleanFrom place last cs) ↔ Closed cs := by
  have hfeed : Masked (· ≠ '"') ['\n'] := .char (by decide) (by decide) .nil
  induction hn : cs.length using Nat.strongRecOn generalizing place last cs with
  | ind n ih =>
    subst hn
    have hshorter (ds : List Char) (hds : ds.length < cs.length) (place : Place)
        (last : Option Char) : Closed (cleanFrom place last ds) ↔ Closed ds :=
      ih ds.length hds place last ds rfl
    cases cs using run_induction with
    | nil => rw [cleanFrom]
    | lone => rw [cleanFrom]
    | escape c cs =>
      have hcs : Closed ('\\' :: c :: cs) ↔ Closed cs := closed_append (.escape c .nil)
      have hlt : cs.length < ('\\' :: c :: cs).length := length_lt_append_cons ['\\'] c cs
      rw [hcs]
      by_cases hn : c = 'n'
      · subst hn
        rw [cleanFrom_feed]
        exact (closed_append hfeed).trans (hshorter cs hlt _ _)
      · rw [cleanFrom_hidden hn]
        exact (closed_append (.escape c .nil)).trans (hshorter cs hlt _ _)
    | run run cs hne hrun hhead =>
      have hlength := List.length_pos_iff.mpr hne
      rw [cleanFrom_run hne hrun hhead, closed_append (masked_of_blank hrun),
        closed_append (masked_of_blank fun c hc => isSpace_of_mem_cleanRun hrun hc),
        hshorter cs (by rw [List.length_append]; omega)]
    | char c cs hc hspace =>
      by_cases hquote : c = '"'
      · subst hquote
        by_cases hseam : place = .text 0 ∧ (trimStart cs).head? = some '"'
        · obtain ⟨rfl, hseam⟩ := hseam
          rcases seam_cases cs with ⟨-, blank, more, hblank, rfl, hmore⟩ | ⟨hnone, -⟩
          · rw [cleanFrom_seam hseam, hmore, closed_quote,
              closed_append (masked_of_blank (List.all_eq_true.mp hblank)), closed_quote,
              not_not, ← hshorter more (Nat.lt_succ_of_lt (length_lt_append_cons blank '"' more))
                (.text 0) (some '\n')]
            exact closed_append hfeed
          · exact absurd hseam hnone
        · rw [cleanFrom_char hc hspace fun h => hseam ⟨h.1, h.2.2⟩, closed_quote, closed_quote,
            hshorter cs (Nat.lt_succ_self _)]
      · have hfront : Masked (· ≠ '"') [c] := .char hc hquote .nil
        rw [cleanFrom_char hc hspace fun h => hquote h.2.1]
        exact (closed_append hfront).trans
          ((hshorter cs (Nat.lt_succ_self _) _ _).trans (closed_append hfront).symm)

/-! ### Runs of spaces -/

/-- A text of a group stands in what is left of the group as it is left of itself. -/
theorem joined_of_mem {group : List (List Char)} (hgroup : ∀ text ∈ group, Masked (· ≠ '"') text)
    {text : List Char} (h : text ∈ group) :
    ∃ front behind, Masked (· ≠ '"') front ∧ joined group = front ++ (kept text ++ behind) := by
  induction group with
  | nil => cases h
  | cons first group ih =>
    by_cases hne : group = []
    · subst hne
      rw [List.mem_singleton.mp h]
      exact ⟨[], [], .nil, by simp [joined]⟩
    · rw [joined_cons hne]
      rcases List.mem_cons.mp h with rfl | h
      · exact ⟨[], _, .nil, rfl⟩
      · obtain ⟨front, behind, hfront, heq⟩ :=
          ih (fun text htext => hgroup text (List.mem_cons_of_mem first htext)) h
        have hfirst : Masked (· ≠ '"') (kept first) :=
          masked_cleanFrom (hgroup first List.mem_cons_self)
        refine ⟨kept first ++ '\n' :: front, behind,
          hfirst.append (.char (by decide) (by decide) hfront), ?_⟩
        rw [heq]
        simp

/-- A run of spaces in a text, outside of all markers, is found again in what is read of the group,
between what is read of the parts in front of it and behind it. -/
theorem unescape_joined_spaces {group : List (List Char)}
    (hgroup : ∀ text ∈ group, Masked (· ≠ '"') text) {front behind : List Char} {n : Nat}
    (h : front ++ (List.replicate n ' ' ++ behind) ∈ group) (hfront : Masked (· ≠ '"') front)
    (hplace : Balanced front) (hshown : endsBlank front = false)
    (hbehind : ∀ c ∈ behind.head?, isSpace c = false) :
    ∃ before after, unescape (joined group) = before ++ (unescape (kept front) ++
      (List.replicate n ' ' ++ (unescape (kept behind) ++ after))) := by
  obtain ⟨before, after, hbefore, heq⟩ := joined_of_mem hgroup h
  have hspaces : ∀ c ∈ List.replicate n ' ', isSpace c = true := fun c hc =>
    (List.mem_replicate.mp hc).2 ▸ by decide
  have hmasked : Masked (· ≠ '"') behind :=
    ((hgroup _ h).of_append hfront).of_append (masked_of_blank hspaces)
  have hkept {part : List Char} (hpart : Masked (· ≠ '"') part) : Masked (· ≠ '"') (kept part) :=
    masked_cleanFrom hpart
  refine ⟨unescape before, unescape after, ?_⟩
  rw [heq, kept_spaces hfront hplace hshown hbehind, hbefore.unescape_append, List.append_assoc,
    List.append_assoc, (hkept hfront).unescape_append, unescape_blank hspaces,
    (hkept hmasked).unescape_append]

end Gamebook.Text
