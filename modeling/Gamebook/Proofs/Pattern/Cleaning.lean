import Gamebook.Proofs.Pattern.Filling

/-!
# Cleaning with a noun in the hole

Cleaning leaves a plain noun as it is, in scripts and in quoted texts, and it keeps the same of the
white space around it as around the hole. So it makes no difference whether the noun is put in
before a text is cleaned or after (`Filling.clean_fill`).
-/

namespace Gamebook

open Text Script

/-! ### Nouns -/

theorem step_of_isPlain {c : Char} (hc : isPlain c = true) (place : Place) :
    place.step c = place := by
  have hne {d : Char} (hd : isPlain d = false) : c ≠ d := Stroke.ne_of_isPlain hc hd
  match place with
  | .script => exact if_neg (hne rfl)
  | .text 0 => rw [Place.step, if_neg (hne rfl), if_neg (hne rfl)]
  | .text (n + 1) => rw [Place.step, if_neg (hne rfl), if_neg (hne rfl)]

/-- An ordinary character is kept, and leads nowhere. -/
theorem cleanFrom_plain {c : Char} (hc : isPlain c = true) (place : Place) (last : Option Char)
    (rest : List Char) :
    cleanFrom place last (c :: rest) = c :: cleanFrom place (some c) rest := by
  have hquote : c ≠ '"' := Stroke.ne_of_isPlain hc rfl
  obtain ⟨-, hescape, -, -, hspace⟩ := isPlain_cases hc
  rw [cleanFrom_char hescape hspace fun hseam => hquote hseam.2.1, step_of_isPlain hc]

/-- A space between ordinary characters is kept. -/
theorem cleanRun_space {c d : Char} (hc : isPlain c = true) (hd : isPlain d = true) (place : Place)
    (rest : List Char) : cleanRun place (some c) [' '] (d :: rest) = [' '] := by
  rw [cleanRun]
  split
  · rfl
  · simp [Stroke.isStructural_of_isPlain hc, Stroke.isStructural_of_isPlain hd]

/-- A plain noun is kept. -/
theorem PlainNoun.cleanFrom {noun : List Char} (h : PlainNoun noun) (place : Place)
    (last : Option Char) (rest : List Char) : Text.cleanFrom place last (noun ++ rest) =
      noun ++ Text.cleanFrom place noun.getLast? rest := by
  induction h generalizing last with
  | last hc => exact cleanFrom_plain hc place last rest
  | @char c cs hc h ih =>
    obtain ⟨d, more, rfl, -⟩ := h.exists_cons
    rw [List.cons_append, cleanFrom_plain hc, ih, List.getLast?_cons_cons]
    rfl
  | @space c cs hc h ih =>
    obtain ⟨d, more, rfl, hd⟩ := h.exists_cons
    have hrun : Text.cleanFrom place (some c) ([' '] ++ (d :: more ++ rest)) =
        cleanRun place (some c) [' '] (d :: more ++ rest) ++ Text.cleanFrom place
          ((cleanRun place (some c) [' '] (d :: more ++ rest)).getLast?.or (some c))
          (d :: more ++ rest) :=
      cleanFrom_run (by simp) (List.forall_mem_singleton.mpr rfl)
        (by simpa using (isPlain_cases hd).2.2.2.2)
    have hkept : cleanRun place (some c) [' '] (d :: more ++ rest) = [' '] :=
      cleanRun_space hc hd place _
    rw [hkept, ih, List.singleton_append, List.singleton_append] at hrun
    rw [List.cons_append, List.cons_append, cleanFrom_plain hc, hrun, List.getLast?_cons_cons,
      List.getLast?_cons_cons]
    rfl

/-- A plain noun has no character with a meaning in scripts at its end. -/
theorem PlainNoun.all_getLast? {noun : List Char} (h : PlainNoun noun) :
    noun.getLast?.all isStructural = false := by
  obtain ⟨c, rest, hnoun, hc⟩ := h.reverse.exists_cons
  rw [← List.head?_reverse, hnoun]
  exact Stroke.isStructural_of_isPlain hc

namespace Filling

variable {F : Filling} {place : Place} {last last' : Option Char} {cs : List Char}

/-- The same is kept of a run of white space. -/
theorem cleanRun_fill (hlast : last'.all isStructural = last.all isStructural)
    (run behind : List Char) :
    cleanRun place last' run (F.fill behind) = cleanRun place last run behind := by
  rw [cleanRun, cleanRun, hlast, all_head?_fill fun _ => Stroke.isStructural_of_isPlain]

theorem fill_blank {run : List Char} (hrun : ∀ c ∈ run, isSpace c = true) : F.fill run = run :=
  fill_of_notMem fun hmem => ne_hole_of_isSpace (hrun _ hmem) rfl

theorem fill_run {c : Char} (hspace : isSpace c = true) (rest : List Char) :
    F.fill (c :: rest) = c :: rest.takeWhile isSpace ++ F.fill (trimStart rest) := by
  obtain ⟨htake, hdrop⟩ := span_fill (F := F) (fun _ hc => (isPlain_cases hc).2.2.2.2) rest
  rw [fill_char (ne_hole_of_isSpace hspace), List.cons_append, ← List.takeWhile_append_dropWhile
    (p := isSpace) (l := F.fill rest), htake, hdrop]
  rfl

/-- The noun may be put in before a text is cleaned. Of the characters in front it only matters
whether the last one has a meaning in scripts. -/
theorem cleanFrom_fill (h : F.Bare cs) (hlast : last'.all isStructural = last.all isStructural) :
    cleanFrom place last' (F.fill cs) = F.fill (cleanFrom place last cs) := by
  fun_induction cleanFrom place last cs generalizing last' with
  | case1 place last => rw [fill_nil, cleanFrom]
  | case2 place last =>
    have hlone : F.fill ['\\'] = ['\\'] := fill_mark rfl []
    rw [hlone, cleanFrom]
  | case3 place last rest ih =>
    rw [fill_escape h.escape, cleanFrom_feed, ih h.tail.tail rfl, fill_mark rfl]
  | case4 place last c rest hn ih =>
    rw [fill_escape h.escape, cleanFrom_hidden hn, ih h.tail.tail rfl, fill_escape h.escape]
  | case5 place last c rest _ _ _ hspace run behind kept =>
    rename_i ih
    have hrun := isSpace_of_mem_run hspace rest
    have hhead : ∀ d ∈ (F.fill behind).head?, isSpace d = false := by
      rw [← trimStart_fill]
      exact isSpace_of_mem_head?_trimStart _
    have hkept : cleanRun place last' run (F.fill behind) = kept := cleanRun_fill hlast _ _
    have hlasts : (kept.getLast?.or last').all isStructural =
        (kept.getLast?.or last).all isStructural := by
      cases kept.getLast? with
      | none => exact hlast
      | some d => rfl
    rw [fill_run hspace, cleanFrom_run (List.cons_ne_nil _ _) hrun hhead, hkept,
      ih h.tail.trimStart hlasts, fill_append,
      fill_blank fun d hd => isSpace_of_mem_cleanRun hrun hd]
  | case6 place last c rest _ _ _ hspace hseam ih =>
    obtain ⟨rfl, rfl, hhead⟩ := hseam
    obtain ⟨more, hmore⟩ := List.head?_eq_some_iff.mp hhead
    have hfill : trimStart (F.fill rest) = '"' :: F.fill more := by
      rw [trimStart_fill, hmore, fill_mark rfl]
    rw [hmore] at ih ⊢
    have hfits : F.Bare ('"' :: more) := hmore ▸ h.tail.trimStart
    rw [fill_mark rfl, cleanFrom_seam (by rw [hfill]; rfl), hfill, fill_mark rfl]
    exact congrArg _ (ih hfits.tail rfl)
  | case7 place last c rest hend _ hescape hspace hseam ih =>
    have hc : c ≠ '\\' := ne_escape_of_rules hend hescape
    by_cases hhole : c = F.hole
    · subst hhole
      have hlasts : F.noun.getLast?.all isStructural = (some F.hole).all isStructural := by
        rw [F.plain.all_getLast?, Option.all_some, Stroke.isStructural_of_isPlain F.shown]
      rw [fill_hole, fill_hole, F.plain.cleanFrom, ← ih h.tail hlasts, step_of_isPlain F.shown]
    · rw [fill_char hhole, fill_char hhole, cleanFrom_char hc (Bool.eq_false_iff.mpr hspace),
        ih h.tail rfl]
      rwa [trimStart_fill, head?_fill rfl]

theorem clean_fill (h : F.Bare cs) : clean (F.fill cs) = F.fill (clean cs) :=
  cleanFrom_fill h rfl

/-- White space between a backslash and the hole is not dropped. -/
theorem cleanRun_ne_nil {run behind : List Char} (hne : run ≠ []) (hlast : last = some '\\')
    (hbehind : behind.head? = some F.hole) : cleanRun place last run behind ≠ [] := by
  have hescape : isStructural '\\' = false := by decide
  rw [cleanRun, hlast, hbehind, Option.all_some, Option.all_some,
    Stroke.isStructural_of_isPlain F.shown, hescape]
  split
  · split
    · exact List.cons_ne_nil _ _
    · exact hne
  · exact List.cons_ne_nil _ _

/-- Cleaning puts no backslash in front of the hole. -/
theorem Bare.cleanFrom (h : F.Bare (last.toList ++ cs)) :
    F.Bare (last.toList ++ Text.cleanFrom place last cs) := by
  have hfeed : '\n' ≠ F.hole := ne_hole rfl
  fun_induction Text.cleanFrom place last cs with
  | case1 place last => exact h
  | case2 place last => exact h
  | case3 place last rest ih =>
    exact (h.left.append (by simpa using hfeed.symm)).overlap
      (ih (h.right.tail.tail.cons (by decide)))
  | case4 place last c rest hn ih =>
    have hrest := h.right.tail
    rw [List.append_cons] at h ⊢
    rw [List.append_cons] at h
    exact h.left.overlap (ih hrest)
  | case5 place last c rest _ _ _ hspace run behind kept =>
    rename_i ih
    have hrun := isSpace_of_mem_run hspace rest
    have hhole : F.hole ∉ kept := fun hmem =>
      ne_hole_of_isSpace (isSpace_of_mem_cleanRun hrun hmem) rfl
    have hbehind : F.Bare behind := h.right.tail.trimStart
    rcases List.eq_nil_or_concat' kept with hnil | ⟨front, d, hconcat⟩
    · rw [hnil] at ih ⊢
      refine ih ?_
      cases last with
      | none => exact hbehind
      | some d =>
        exact hbehind.cons_of_head? fun hescape hhead =>
          cleanRun_ne_nil (List.cons_ne_nil c _) (congrArg some hescape) hhead hnil
    · have hescape : d ≠ '\\' := by
        rintro rfl
        cases isSpace_of_mem_cleanRun hrun (hconcat ▸ by simp : '\\' ∈ kept)
      have hfront : F.Bare (last.toList ++ front ++ [d]) := by
        rw [List.append_assoc, ← hconcat]
        exact h.left.append hhole
      rw [hconcat, List.getLast?_concat] at ih ⊢
      rw [List.append_assoc, ← List.append_assoc]
      exact hfront.overlap (ih (hbehind.cons hescape))
  | case6 place last c rest _ _ _ hspace hseam ih =>
    have hmore := h.right.tail.trimStart.drop 1
    exact (h.left.append (by simpa using hfeed.symm)).overlap (ih (hmore.cons (by decide)))
  | case7 place last c rest hend _ hescape hspace hseam ih =>
    have hrest := h.right
    rw [List.append_cons] at h
    exact h.left.overlap (ih hrest)

theorem Bare.clean (h : F.Bare cs) : F.Bare (Text.clean cs) := by
  have hnone : F.Bare ((none : Option Char).toList ++ cs) := h
  exact hnone.cleanFrom

end Filling

end Gamebook
