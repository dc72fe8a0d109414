import Gamebook.Proofs.Text.Parity
import Gamebook.Proofs.Text.Quotes

/-!
# White space between words

Outside of quoted texts a run of white space is dropped next to a character with a meaning in
scripts and kept as one space between any others. An escaped character has no meaning. On the right
of a run this is heeded, since an escaped character stands behind its backslash there; on the left
only the last character written is looked at, and so a run behind an escaped mark is dropped, and
the words that it keeps apart become one (`clean_words`).

What cleaning writes for the text in front of such a run does not depend on what follows, but for a
quote at the end of it, which goes if a quoted text follows (`goesOn`).
-/

namespace Gamebook.Text

/-! ### Neighbours -/

/-- The last character of a text, unless it is escaped. -/
def bareLast? : List Char → Option Char
  | [] => none
  | '\\' :: _ :: rest => bareLast? rest
  | c :: rest => if rest.isEmpty then some c else bareLast? rest

/-- Whether a text ends in a mark that is escaped. -/
def EndsInEscapedMark (cs : List Char) : Prop :=
  bareLast? cs = none ∧ cs.getLast?.any isStructural = true

instance (cs : List Char) : Decidable (EndsInEscapedMark cs) :=
  inferInstanceAs (Decidable (_ ∧ _))

/-- A run of white space that is not in a quoted text, and the texts that it keeps apart. It is the
whole run: the text in front of it ends neither in white space nor in an escape that is open, and
the text behind it does not start with white space. -/
structure Between (front run behind : List Char) : Prop where
  front_ne_nil : front ≠ []
  masked : Masked (fun _ => True) front
  shown : ∀ c ∈ bareLast? front, isSpace c = false
  outside : Place.script.after front ≠ .text 0
  run_ne_nil : run ≠ []
  blank : ∀ c ∈ run, isSpace c = true
  behind_ne_nil : behind ≠ []
  behind_shown : ∀ c ∈ behind.head?, isSpace c = false

theorem bareLast?_char {c : Char} (hc : c ≠ '\\') (cs : List Char) :
    bareLast? (c :: cs) = if cs.isEmpty then some c else bareLast? cs := by
  rw [bareLast?]
  rintro _ _ rfl
  exact absurd rfl hc

theorem bareLast?_cons {c : Char} (hc : c ≠ '\\') {cs : List Char} (hne : cs ≠ []) :
    bareLast? (c :: cs) = bareLast? cs := by
  rw [bareLast?_char hc, if_neg (by simpa using hne)]

theorem bareLast?_append {cs ds : List Char} (h : ∀ c ∈ cs, c ≠ '\\') (hne : ds ≠ []) :
    bareLast? (cs ++ ds) = bareLast? ds := by
  induction cs with
  | nil => rfl
  | cons c cs ih =>
    rw [List.cons_append, bareLast?_cons (h c List.mem_cons_self) (by simp [hne]),
      ih fun d hd => h d (List.mem_cons_of_mem c hd)]

theorem endsBlank_eq (cs : List Char) : endsBlank cs = (bareLast? cs).any isSpace := by
  fun_induction bareLast? cs with
  | case1 => rfl
  | case2 c rest ih => exact ih
  | case3 c rest hc hempty =>
    rw [endsBlank, if_pos hempty]
    · rfl
    · exact hc
  | case4 c rest hc hempty ih =>
    rw [endsBlank, if_neg hempty, ih]
    exact hc

/-- An unescaped last character is the last one. -/
theorem getLast?_of_bareLast? {cs : List Char} {c : Char} (h : bareLast? cs = some c) :
    cs.getLast? = some c := by
  fun_induction bareLast? cs with
  | case1 => cases h
  | case2 d rest ih =>
    rw [List.getLast?_cons, List.getLast?_cons, ih h]
    rfl
  | case3 d rest hd hempty =>
    rw [List.isEmpty_iff.mp hempty]
    exact h
  | case4 d rest hd hempty ih =>
    rw [List.getLast?_cons, ih h]
    rfl

/-- White space does not end in anything that shows. -/
theorem not_blank_of_shown {cs : List Char} (hne : cs ≠ [])
    (hshown : ∀ c ∈ bareLast? cs, isSpace c = false) : ¬ ∀ c ∈ cs, isSpace c = true := by
  intro hblank
  have hends : (bareLast? cs).any isSpace = true := by
    rw [← endsBlank_eq, ← List.append_nil cs, endsBlank_run hne hblank]
    rfl
  cases hlast : bareLast? cs with
  | none =>
    rw [hlast] at hends
    cases hends
  | some c =>
    rw [hlast, Option.any_some, hshown c hlast] at hends
    cases hends

/-- Behind a text that shows something at its end, no white space in front of it is left out. -/
theorem head?_trimStart_append {cs : List Char} (hne : cs ≠ [])
    (hshown : ∀ c ∈ bareLast? cs, isSpace c = false) (rest : List Char) :
    (trimStart (cs ++ rest)).head? = (trimStart cs).head? := by
  have hleft : cs.dropWhile isSpace ≠ [] := fun h =>
    not_blank_of_shown hne hshown (List.dropWhile_eq_nil_iff.mp h)
  obtain ⟨d, ds, hds⟩ := List.exists_cons_of_ne_nil hleft
  rw [trimStart, trimStart, List.dropWhile_append, hds]
  rfl

theorem any_getLast?_append (cs : List Char) {ds : List Char} (hne : ds ≠ []) :
    (cs ++ ds).getLast?.any isStructural = ds.getLast?.any isStructural := by
  rw [List.getLast?_append, List.getLast?_eq_some_getLast hne, Option.some_or]

/-! ### Fronts -/

/-- Cleaning goes on behind a text, whatever that is, with a last character that has a meaning if
the last one read has it, escaped or not. Only the quote at the end of a quoted text waits for what
follows it. -/
def GoesOn (place : Place) (last : Option Char) (front : List Char) : Prop :=
  ∃ written,
    (bareLast? front = some '"' ∧ place.after front = .script ∧
      ∀ rest, cleanFrom place last (front ++ rest) = written ++ kept ('"' :: rest)) ∨
    (∃ c, isStructural c = front.getLast?.any isStructural ∧ ∀ rest,
      cleanFrom place last (front ++ rest) =
        written ++ cleanFrom (place.after front) (some c) rest)

variable {place : Place} {last : Option Char}

/-- What is written first does not change how cleaning goes on. -/
theorem GoesOn.prepend {place' : Place} {last' : Option Char} {more : List Char}
    (h : GoesOn place' last' more) (hne : more ≠ []) (skipped written : List Char)
    (hlast : bareLast? (skipped ++ more) = bareLast? more)
    (hafter : place.after (skipped ++ more) = place'.after more)
    (hwritten : ∀ rest, cleanFrom place last (skipped ++ (more ++ rest)) =
      written ++ cleanFrom place' last' (more ++ rest)) :
    GoesOn place last (skipped ++ more) := by
  obtain ⟨written', hcases⟩ := h
  rw [GoesOn, hlast, hafter, any_getLast?_append skipped hne]
  refine ⟨written ++ written', hcases.imp ?_ ?_⟩
  · rintro ⟨hquote, hscript, hrest⟩
    exact ⟨hquote, hscript, fun rest => by
      rw [List.append_assoc, hwritten, hrest, List.append_assoc]⟩
  · rintro ⟨c, hc, hrest⟩
    exact ⟨c, hc, fun rest => by rw [List.append_assoc, hwritten, hrest, List.append_assoc]⟩

theorem bareLast?_seam {blank more : List Char} (hblank : ∀ c ∈ blank, isSpace c = true)
    (hne : more ≠ []) : bareLast? ('"' :: (blank ++ '"' :: more)) = bareLast? more := by
  rw [bareLast?_cons (by decide) (by simp), bareLast?_append
    (fun c hc => ne_escape_of_isSpace (hblank c hc)) (List.cons_ne_nil _ _),
    bareLast?_cons (by decide) hne]

/-- Behind the seam of two quoted texts cleaning goes on in the second one. -/
theorem GoesOn.seam {blank more : List Char} (hblank : ∀ c ∈ blank, isSpace c = true)
    (hne : more ≠ []) (h : GoesOn (.text 0) (some '\n') more) :
    GoesOn (.text 0) last ('"' :: (blank ++ '"' :: more)) := by
  have hsplit : '"' :: (blank ++ '"' :: more) = ('"' :: (blank ++ ['"'])) ++ more := by simp
  have hlast := bareLast?_seam hblank hne
  have hafter : (Place.text 0).after ('"' :: (blank ++ '"' :: more)) = (Place.text 0).after more :=
    Place.after_run hblank .script ('"' :: more)
  rw [hsplit] at hlast hafter ⊢
  refine h.prepend hne _ ['\n'] hlast hafter fun rest => ?_
  have htrim : trimStart (blank ++ '"' :: (more ++ rest)) = '"' :: (more ++ rest) :=
    List.dropWhile_append_of_pos hblank
  rw [List.cons_append, List.append_assoc, List.singleton_append,
    cleanFrom_seam (by rw [htrim]; rfl), htrim]
  rfl

/-- Behind an escaped character. -/
theorem GoesOn.escape (c : Char) {cs : List Char}
    (h : cs ≠ [] → ∀ last', GoesOn place last' cs) : GoesOn place last ('\\' :: c :: cs) := by
  by_cases hcs : cs = []
  · subst hcs
    by_cases hc : c = 'n'
    · subst hc
      exact ⟨['\n'], .inr ⟨'\n', rfl, fun rest => cleanFrom_feed place last rest⟩⟩
    · exact ⟨['\\', c], .inr ⟨c, rfl, fun rest => cleanFrom_hidden hc place last rest⟩⟩
  · by_cases hc : c = 'n'
    · subst hc
      exact (h hcs _).prepend hcs ['\\', 'n'] ['\n'] rfl rfl fun rest =>
        cleanFrom_feed place last _
    · exact (h hcs _).prepend hcs ['\\', c] ['\\', c] rfl rfl fun rest =>
        cleanFrom_hidden hc place last _

/-- Behind a run of white space, of which it is known what follows. -/
theorem GoesOn.run {run cs : List Char} (hne : run ≠ []) (hrun : ∀ c ∈ run, isSpace c = true)
    (hhead : ∀ c ∈ cs.head?, isSpace c = false) (hcs : cs ≠ [])
    (h : ∀ last', GoesOn place last' cs) : GoesOn place last (run ++ cs) := by
  refine (h ((cleanRun place last run cs).getLast?.or last)).prepend hcs run
    (cleanRun place last run cs)
    (bareLast?_append (fun c hc => ne_escape_of_isSpace (hrun c hc)) hcs)
    (Place.after_run hrun place cs) fun rest => ?_
  -- what follows a run is seen by its first character only
  obtain ⟨d, cs, rfl⟩ := List.exists_cons_of_ne_nil hcs
  exact cleanFrom_run hne hrun hhead

/-- Behind a last character; a quote at the end of a quoted text waits. -/
theorem GoesOn.single {c : Char} (hc : c ≠ '\\') (hspace : isSpace c = false) :
    GoesOn place last [c] := by
  by_cases hseam : place = .text 0 ∧ c = '"'
  · obtain ⟨rfl, rfl⟩ := hseam
    exact ⟨[], .inl ⟨rfl, rfl, fun rest => cleanFrom_text last _⟩⟩
  · refine ⟨[c], .inr ⟨c, rfl, fun rest => ?_⟩⟩
    rw [Place.after_char hc place []]
    exact cleanFrom_char hc hspace fun h => hseam ⟨h.1, h.2.1⟩

/-- Behind any other character, unless a seam starts with it. -/
theorem GoesOn.char {c : Char} {cs : List Char} (hc : c ≠ '\\') (hspace : isSpace c = false)
    (hcs : cs ≠ []) (hshown : ∀ d ∈ bareLast? cs, isSpace d = false)
    (hseam : ¬ (place = .text 0 ∧ c = '"' ∧ (trimStart cs).head? = some '"'))
    (h : GoesOn (place.step c) (some c) cs) : GoesOn place last (c :: cs) := by
  refine h.prepend hcs [c] [c] (bareLast?_cons hc hcs) (Place.after_char hc place cs) fun rest =>
    cleanFrom_char hc hspace ?_
  change ¬ (_ ∧ _ ∧ (trimStart (cs ++ rest)).head? = _)
  rwa [head?_trimStart_append hcs hshown]

/-- Cleaning goes on behind every text that ends outside of quoted texts, in something that
shows. -/
theorem goesOn {front : List Char} (hne : front ≠ []) (h : Masked (fun _ => True) front)
    (hshown : ∀ c ∈ bareLast? front, isSpace c = false) (place : Place)
    (hplace : place.after front ≠ .text 0) (last : Option Char) : GoesOn place last front := by
  induction hn : front.length using Nat.strongRecOn generalizing place last front with
  | ind n ih =>
    subst hn
    -- a seam takes more than one character, so the induction is on the length
    have hshorter {cs : List Char} (hlength : cs.length < front.length) (hcs : cs ≠ [])
        (hmasked : Masked (fun _ => True) cs) (hlast : bareLast? front = bareLast? cs)
        {place' : Place} (hafter : place.after front = place'.after cs) (last' : Option Char) :
        GoesOn place' last' cs :=
      ih cs.length hlength hcs hmasked (hlast ▸ hshown) place' (hafter ▸ hplace) last' rfl
    cases front using run_induction with
    | nil => exact absurd rfl hne
    | lone => exact absurd h Masked.not_lone
    | escape c cs =>
      exact .escape c fun hcs last' =>
        hshorter (length_lt_append_cons ['\\'] c cs) hcs h.of_escape rfl rfl last'
    | run run cs hrunne hrun hhead =>
      have hcs : cs ≠ [] := by
        rintro rfl
        rw [List.append_nil] at hshown
        exact not_blank_of_shown hrunne hshown hrun
      have hlength : cs.length < (run ++ cs).length := by
        have hpos := List.length_pos_iff.mpr hrunne
        rw [List.length_append]
        omega
      exact .run hrunne hrun hhead hcs (hshorter hlength hcs (h.of_append (masked_of_blank hrun))
        (bareLast?_append (fun c hc => ne_escape_of_isSpace (hrun c hc)) hcs)
        (Place.after_run hrun place cs))
    | char c cs hc hspace =>
      by_cases hcs : cs = []
      · subst hcs
        exact .single hc hspace
      · obtain ⟨-, hmasked⟩ := h.of_char hc
        have hafter := Place.after_char hc place cs
        by_cases hseam : place = .text 0 ∧ c = '"' ∧ (trimStart cs).head? = some '"'
        · obtain ⟨rfl, rfl, hhead⟩ := hseam
          rcases seam_cases cs with ⟨-, blank, more, hblank, rfl, -⟩ | ⟨hnone, -⟩
          · have hrun := List.all_eq_true.mp hblank
            rw [Place.after_run hrun] at hafter
            have hmore : more ≠ [] := by
              rintro rfl
              exact hplace hafter
            have hbehind : Masked (fun _ => True) more :=
              ((hmasked.of_append (masked_of_blank hrun)).of_char (by decide)).2
            have hlength : more.length < ('"' :: (blank ++ '"' :: more)).length :=
              Nat.lt_succ_of_lt (length_lt_append_cons blank '"' more)
            exact .seam hrun hmore
              (hshorter hlength hmore hbehind (bareLast?_seam hrun hmore) hafter (some '\n'))
          · exact absurd hhead hnone
        · have hlast := bareLast?_cons hc hcs
          exact .char hc hspace hcs (hlast ▸ hshown) hseam
            (hshorter (Nat.lt_succ_self _) hcs hmasked hlast hafter (some c))

/-! ### Runs -/

/-- The last character written has a say in the white space behind it, and in nothing else. -/
theorem cleanFrom_shown {cs : List Char} (h : ∀ c ∈ cs.head?, isSpace c = false) (place : Place)
    (last last' : Option Char) : cleanFrom place last cs = cleanFrom place last' cs := by
  cases cs using run_induction with
  | nil => rw [cleanFrom, cleanFrom]
  | lone => rw [cleanFrom, cleanFrom]
  | escape c cs =>
    by_cases hn : c = 'n'
    · subst hn
      rw [cleanFrom_feed, cleanFrom_feed]
    · rw [cleanFrom_hidden hn, cleanFrom_hidden hn]
  | run run cs hne hrun hcs =>
    obtain ⟨c, run, rfl⟩ := List.exists_cons_of_ne_nil hne
    have hspace := hrun c List.mem_cons_self
    rw [h c rfl] at hspace
    cases hspace
  | char c cs hc hspace =>
    by_cases hseam : place = .text 0 ∧ c = '"' ∧ (trimStart cs).head? = some '"'
    · obtain ⟨rfl, rfl, hcs⟩ := hseam
      rw [cleanFrom_seam hcs, cleanFrom_seam hcs]
    · rw [cleanFrom_char hc hspace hseam, cleanFrom_char hc hspace hseam]

namespace Between

variable {front run behind : List Char}

theorem goesOn (h : Between front run behind) : GoesOn .script none front :=
  Text.goesOn h.front_ne_nil h.masked h.shown .script h.outside none

theorem trimStart_behind (h : Between front run behind) : trimStart behind = behind := by
  obtain ⟨c, cs, hcs⟩ := List.exists_cons_of_ne_nil h.behind_ne_nil
  rw [hcs, trimStart, List.dropWhile_cons_of_neg]
  simp [h.behind_shown c (by rw [hcs]; rfl)]

theorem trimStart_run (h : Between front run behind) : trimStart (run ++ behind) = behind := by
  rw [trimStart, List.dropWhile_append_of_pos h.blank]
  exact h.trimStart_behind

/-- Next to a character that has a meaning nothing is written for the run. -/
theorem cleanFrom_dropped (h : Between front run behind) {place : Place} (hplace : place ≠ .text 0)
    {c : Char} (hmark : isStructural c = true ∨ behind.head?.any isStructural = true) :
    cleanFrom place (some c) (run ++ behind) = cleanFrom place (some c) behind := by
  have hkept : cleanRun place (some c) run behind = [] := by
    obtain ⟨d, ds, hbehind⟩ := List.exists_cons_of_ne_nil h.behind_ne_nil
    rw [hbehind] at hmark ⊢
    rw [cleanRun, if_neg hplace, if_pos]
    simpa using hmark
  rw [cleanFrom_run h.run_ne_nil h.blank h.behind_shown, hkept]
  rfl

/-- Between two others a space is written for it. -/
theorem cleanFrom_spaced (h : Between front run behind) {place : Place} (hplace : place ≠ .text 0)
    {c : Char} (hc : isStructural c = false) (hbehind : behind.head?.any isStructural = false) :
    cleanFrom place (some c) (run ++ behind) = ' ' :: cleanFrom place none behind := by
  have hkept : cleanRun place (some c) run behind = [' '] := by
    obtain ⟨d, ds, hds⟩ := List.exists_cons_of_ne_nil h.behind_ne_nil
    rw [hds] at hbehind ⊢
    rw [cleanRun, if_neg hplace, if_neg]
    simpa [hc] using hbehind
  rw [cleanFrom_run h.run_ne_nil h.blank h.behind_shown, hkept,
    cleanFrom_shown h.behind_shown place _ none]
  rfl

/-- A run next to a mark, escaped or not in front of it, leaves nothing. -/
theorem clean_dropped (h : Between front run behind)
    (hmark : front.getLast?.any isStructural = true ∨ behind.head?.any isStructural = true) :
    clean (front ++ run ++ behind) = clean (front ++ behind) := by
  obtain ⟨written, ⟨-, -, hrest⟩ | ⟨c, hc, hrest⟩⟩ := h.goesOn
  · rw [clean, clean, List.append_assoc, hrest, hrest]
    congr 1
    by_cases hseam : behind.head? = some '"'
    · rw [kept_seam (by rwa [h.trimStart_run]), kept_seam (by rwa [h.trimStart_behind]),
        h.trimStart_run, h.trimStart_behind]
    · rw [kept_quote (by rwa [h.trimStart_run]), kept_quote (by rwa [h.trimStart_behind]),
        h.cleanFrom_dropped (by simp) (.inl rfl)]
  · rw [← hc] at hmark
    rw [clean, clean, List.append_assoc, hrest, hrest, h.cleanFrom_dropped h.outside hmark]

/-- A text that does not end in a quote is cleaned by itself. -/
theorem cleanFrom_front (h : Between front run behind) (hquote : bareLast? front ≠ some '"') :
    ∃ c, isStructural c = front.getLast?.any isStructural ∧ ∀ rest, clean (front ++ rest) =
      clean front ++ cleanFrom (Place.script.after front) (some c) rest := by
  obtain ⟨written, ⟨hlast, -, -⟩ | ⟨c, hc, hrest⟩⟩ := h.goesOn
  · exact absurd hlast hquote
  · have hfront : clean front = written := by
      rw [← List.append_nil front, clean, hrest, cleanFrom, List.append_nil]
    exact ⟨c, hc, fun rest => by rw [hfront, clean, hrest]⟩

end Between

/-- Next to a mark a run of white space is dropped, if the mark is not escaped; between other
characters it is kept as one space, but not behind an escaped mark: there it is dropped as well. -/
theorem clean_words {front run behind : List Char} (h : Between front run behind) :
    let marked := (bareLast? front).any isStructural || behind.head?.any isStructural
    let dropped := clean (front ++ behind)
    let spaced := clean front ++ ' ' :: cleanFrom (Place.script.after front) none behind
    (marked = true → clean (front ++ run ++ behind) = dropped) ∧
    (marked = false →
      (clean (front ++ run ++ behind) = spaced ↔ ¬ EndsInEscapedMark front)) ∧
    (EndsInEscapedMark front → clean (front ++ run ++ behind) = dropped) := by
  intro marked dropped spaced
  have hbare (hfront : (bareLast? front).any isStructural = true) :
      front.getLast?.any isStructural = true := by
    cases hlast : bareLast? front with
    | none =>
      rw [hlast] at hfront
      cases hfront
    | some c =>
      rw [hlast] at hfront
      rw [getLast?_of_bareLast? hlast]
      exact hfront
  have hescaped (hmark : EndsInEscapedMark front) : clean (front ++ run ++ behind) = dropped :=
    h.clean_dropped (.inl hmark.2)
  refine ⟨fun hmarked => ?_, fun hmarked => ?_, hescaped⟩
  · exact h.clean_dropped ((Bool.or_eq_true_iff.mp hmarked).imp_left hbare)
  · obtain ⟨hfront, hbehind⟩ := Bool.or_eq_false_iff.mp hmarked
    have hquote : bareLast? front ≠ some '"' := fun hlast => by
      rw [hlast] at hfront
      cases hfront
    obtain ⟨c, hc, hrest⟩ := h.cleanFrom_front hquote
    refine ⟨fun hspaced hmark => ?_, fun hmark => ?_⟩
    · have hjoined : dropped = clean front ++ cleanFrom (Place.script.after front) none behind := by
        rw [← cleanFrom_shown h.behind_shown _ (some c), ← hrest]
      have hlength := congrArg List.length ((hescaped hmark).symm.trans hspaced)
      rw [hjoined] at hlength
      simp [spaced] at hlength
    · have hplain : front.getLast?.any isStructural = false := by
        cases hlast : bareLast? front with
        | none => exact Bool.eq_false_iff.mpr fun hmarkEnd => hmark ⟨hlast, hmarkEnd⟩
        | some d =>
          rw [getLast?_of_bareLast? hlast, ← hlast]
          exact hfront
      rw [List.append_assoc, hrest, h.cleanFrom_spaced h.outside (hc.trans hplain) hbehind]

/-- The white space behind a quoted text with an escaped quote in it, between a letter behind two
escaped marks and an escaped bracket, is kept. -/
theorem clean_words_apart :
    let front := "\"A \\\" b.\" \\:\\[x".toList
    let behind := "\\]z".toList
    Between front " \t".toList behind ∧
      ((bareLast? front).any isStructural || behind.head?.any isStructural) = false ∧
      ¬ EndsInEscapedMark front ∧
      clean (front ++ " \t".toList ++ behind) =
        clean front ++ ' ' :: cleanFrom (Place.script.after front) none behind ∧
      clean (front ++ " \t".toList ++ behind) = "\"A \\\" b.\"\\:\\[x \\]z".toList := by
  intro front behind
  have hbetween : Between front " \t".toList behind :=
    { front_ne_nil := by decide
      masked := (masked_iff_even front).mpr (by decide)
      shown := by rintro c ⟨rfl⟩; decide
      outside := by decide
      run_ne_nil := by decide
      blank := List.all_eq_true.mp (by decide)
      behind_ne_nil := by decide
      behind_shown := by rintro c ⟨rfl⟩; decide }
  have hmarked : ((bareLast? front).any isStructural || behind.head?.any isStructural) = false := by
    decide
  have hplain : ¬ EndsInEscapedMark front := by decide
  obtain ⟨-, hspaced, -⟩ := clean_words hbetween
  exact ⟨hbetween, hmarked, hplain, (hspaced hmarked).mpr hplain, by decide +kernel⟩

/-- The white space behind an escaped colon has no mark next to it, but the words on its sides
become one. -/
theorem clean_words_joined :
    let front := "a\\:".toList
    Between front [' '] ['b'] ∧
      ((bareLast? front).any isStructural || ['b'].head?.any isStructural) = false ∧
      clean (front ++ [' '] ++ ['b']) = "a\\:b".toList ∧
      clean (front ++ [' '] ++ ['b']) ≠
        clean front ++ ' ' :: cleanFrom (Place.script.after front) none ['b'] := by
  intro front
  have hbetween : Between front [' '] ['b'] :=
    { front_ne_nil := by decide
      masked := .char (by decide) trivial (.escape ':' .nil)
      shown := by rintro c ⟨⟩
      outside := by decide
      run_ne_nil := by decide
      blank := List.all_eq_true.mp (by decide)
      behind_ne_nil := by decide
      behind_shown := by rintro c ⟨rfl⟩; decide }
  exact ⟨hbetween, by decide, by decide +kernel, by decide +kernel⟩

end Gamebook.Text
