import Gamebook.Proofs.Text.Joining
import Gamebook.Proofs.Text.Feedless

/-!
# Cleaning, part by part

Cleaning goes on from one run of white space to the next, and of what stands behind a run it only
sees the first character. So a part of a text is cleaned by itself, if it does not end in white
space that the text behind has a say in (`cleanFrom_append_part`); and inside of a quoted text,
outside of all markers, a run of spaces is kept as it is (`kept_spaces`).
-/

namespace Gamebook.Text

variable {place : Place} {last : Option Char}

/-! ### Runs of white space -/

/-- Every text is read from one run of white space to the next, and in between from one character
that is not escaped to the next. -/
@[elab_as_elim]
theorem run_induction {P : List Char → Prop} (nil : P []) (lone : P ['\\'])
    (escape : ∀ c cs, P cs → P ('\\' :: c :: cs))
    (run : ∀ run cs, run ≠ [] → (∀ c ∈ run, isSpace c = true) →
      (∀ c ∈ cs.head?, isSpace c = false) → P cs → P (run ++ cs))
    (char : ∀ c cs, c ≠ '\\' → isSpace c = false → P cs → P (c :: cs)) (cs : List Char) : P cs := by
  induction hn : cs.length using Nat.strongRecOn generalizing cs with
  | ind n ih =>
    subst hn
    cases cs with
    | nil => exact nil
    | cons c cs =>
      by_cases hc : c = '\\'
      · subst hc
        cases cs with
        | nil => exact lone
        | cons d ds =>
          exact escape d ds (ih ds.length (by simp only [List.length_cons]; omega) ds rfl)
      · cases hspace : isSpace c with
        | false => exact char c cs hc hspace (ih cs.length (Nat.lt_succ_self _) cs rfl)
        | true =>
          have hsplit : c :: cs = (c :: cs.takeWhile isSpace) ++ cs.dropWhile isSpace := by
            rw [List.cons_append, List.takeWhile_append_dropWhile]
          have hlength := length_trimStart_le cs
          rw [hsplit]
          exact run _ _ (List.cons_ne_nil _ _) (isSpace_of_mem_run hspace cs)
            (isSpace_of_mem_head?_trimStart cs) (ih _ (Nat.lt_succ_of_le hlength) _ rfl)

/-- The escape of a line feed is resolved. -/
theorem cleanFrom_feed (place : Place) (last : Option Char) (cs : List Char) :
    cleanFrom place last ('\\' :: 'n' :: cs) = '\n' :: cleanFrom place (some '\n') cs := by
  rw [cleanFrom]

/-- Any other escape is kept. -/
theorem cleanFrom_hidden {c : Char} (hc : c ≠ 'n') (place : Place) (last : Option Char)
    (cs : List Char) : cleanFrom place last ('\\' :: c :: cs) =
      '\\' :: c :: cleanFrom place (some c) cs := by
  rw [cleanFrom]
  exact hc

/-- A run of white space is cleaned as a whole. -/
theorem cleanFrom_run {run rest : List Char} (hne : run ≠ []) (hrun : ∀ c ∈ run, isSpace c = true)
    (hrest : ∀ c ∈ rest.head?, isSpace c = false) : cleanFrom place last (run ++ rest) =
      cleanRun place last run rest ++
        cleanFrom place ((cleanRun place last run rest).getLast?.or last) rest := by
  obtain ⟨c, run, rfl⟩ := List.exists_cons_of_ne_nil hne
  have hc : isSpace c = true := hrun c List.mem_cons_self
  have hmore : ∀ d ∈ run, isSpace d = true := fun d hd => hrun d (List.mem_cons_of_mem c hd)
  have htake : (run ++ rest).takeWhile isSpace = run := by
    rw [List.takeWhile_append_of_pos hmore]
    cases rest with
    | nil => simp
    | cons d rest => simp [hrest d rfl]
  have hdrop : trimStart (run ++ rest) = rest := by
    rw [trimStart, List.dropWhile_append_of_pos hmore]
    cases rest with
    | nil => rfl
    | cons d rest => simp [hrest d rfl]
  rw [List.cons_append, cleanFrom, if_pos hc, htake, hdrop]
  all_goals
    intros
    subst_vars
    exact absurd hc (by decide)

/-! ### Places -/

/-- Where cleaning stands behind a text. -/
def Place.after (place : Place) : List Char → Place
  | [] => place
  | '\\' :: _ :: rest => place.after rest
  | c :: rest => (place.step c).after rest

/-- Each character that is not escaped leads one step on. -/
theorem Place.after_char {c : Char} (hc : c ≠ '\\') (place : Place) (cs : List Char) :
    place.after (c :: cs) = (place.step c).after cs := by
  rw [after]
  rintro _ _ rfl
  exact absurd rfl hc

/-- Neither a quote nor a marker is white space. -/
theorem Place.step_space {c : Char} (hc : isSpace c = true) (place : Place) :
    place.step c = place := by
  have hne {d : Char} (hd : isSpace d = false) : c ≠ d := by
    rintro rfl
    rw [hc] at hd
    cases hd
  match place with
  | .script => exact if_neg (hne (by decide))
  | .text 0 => rw [step, if_neg (hne (by decide)), if_neg (hne (by decide))]
  | .text (n + 1) => rw [step, if_neg (hne (by decide)), if_neg (hne (by decide))]

theorem ne_escape_of_isSpace {c : Char} (h : isSpace c = true) : c ≠ '\\' := by
  rintro rfl
  cases h

/-- White space leads nowhere. -/
theorem Place.after_run {run : List Char} (hrun : ∀ c ∈ run, isSpace c = true) (place : Place)
    (cs : List Char) : place.after (run ++ cs) = place.after cs := by
  induction run with
  | nil => rfl
  | cons c run ih =>
    have hc := hrun c List.mem_cons_self
    rw [List.cons_append, after_char (ne_escape_of_isSpace hc), step_space hc,
      ih fun d hd => hrun d (List.mem_cons_of_mem c hd)]

/-- Without quotes a script goes on. -/
theorem Place.script_after {cs : List Char} (h : Masked (· ≠ '"') cs) :
    Place.script.after cs = .script := by
  induction h with
  | nil => rfl
  | escape c _ ih => exact ih
  | @char c cs hc hquote _ ih => rw [after_char hc, step, if_neg hquote, ih]

/-! ### Parts -/

/-- Whether a text ends in white space that is not escaped. -/
def endsBlank : List Char → Bool
  | [] => false
  | '\\' :: _ :: rest => endsBlank rest
  | c :: rest => if rest.isEmpty then isSpace c else endsBlank rest

/-- What ends a text behind a character that shows is the end of what follows. -/
theorem endsBlank_char {c : Char} (hc : c ≠ '\\') (hspace : isSpace c = false) (cs : List Char) :
    endsBlank (c :: cs) = endsBlank cs := by
  rw [endsBlank]
  · cases cs with
    | nil => exact hspace
    | cons d cs => rfl
  · rintro _ _ rfl
    exact absurd rfl hc

/-- A run of white space is the end of a text, or it does not count. -/
theorem endsBlank_run {run cs : List Char} (hne : run ≠ []) (hrun : ∀ c ∈ run, isSpace c = true) :
    endsBlank (run ++ cs) = (cs.isEmpty || endsBlank cs) := by
  induction run with
  | nil => exact absurd rfl hne
  | cons c run ih =>
    have hc := hrun c List.mem_cons_self
    have hescape := ne_escape_of_isSpace hc
    rw [List.cons_append, endsBlank]
    · cases run with
      | nil =>
        rw [List.nil_append, hc]
        cases cs <;> rfl
      | cons d run =>
        exact ih (List.cons_ne_nil _ _) fun e he => hrun e (List.mem_cons_of_mem c he)
    · rintro _ _ rfl
      exact absurd rfl hescape

/-- White space is no quote, and escapes nothing. -/
theorem masked_of_blank {cs : List Char} (h : ∀ c ∈ cs, isSpace c = true) :
    Masked (· ≠ '"') cs := by
  refine Masked.of_forall fun c hc => ⟨ne_escape_of_isSpace (h c hc), ?_⟩
  rintro rfl
  exact absurd (h _ hc) (by decide)

/-- White space needs no escape, so it stays. -/
theorem unescape_blank {gap : List Char} (hgap : ∀ c ∈ gap, isSpace c = true)
    (behind : List Char) : unescape (gap ++ behind) = gap ++ unescape behind := by
  induction gap with
  | nil => rfl
  | cons c gap ih =>
    rw [List.cons_append, unescape_char (ne_escape_of_isSpace (hgap c List.mem_cons_self)),
      ih fun d hd => hgap d (List.mem_cons_of_mem c hd)]
    rfl

namespace Masked

variable {harmless : Char → Prop} {c : Char} {cs ds : List Char}

/-- Behind an escape the escapes are complete as before. -/
theorem of_escape (h : Masked harmless ('\\' :: c :: cs)) : Masked harmless cs := by
  cases h with
  | escape _ h => exact h
  | char hc => exact absurd rfl hc

theorem of_char (hc : c ≠ '\\') (h : Masked harmless (c :: cs)) :
    harmless c ∧ Masked harmless cs := by
  cases h with
  | escape => exact absurd rfl hc
  | char _ hharmless h => exact ⟨hharmless, h⟩

/-- Behind a part whose escapes are complete the text goes on. -/
theorem of_append {harmless' : Char → Prop} (h : Masked harmless (cs ++ ds))
    (hcs : Masked harmless' cs) : Masked harmless ds := by
  induction hcs with
  | nil => exact h
  | escape c _ ih => exact ih h.of_escape
  | char hc _ _ ih => exact ih (h.of_char hc).2

/-- Where the escapes of a part are complete, the rest is resolved by itself. -/
theorem unescape_append (h : Masked harmless cs) (ds : List Char) :
    unescape (cs ++ ds) = unescape cs ++ unescape ds := by
  induction h with
  | nil => rfl
  | escape c _ ih =>
    rw [List.cons_append, List.cons_append, unescape, unescape, ih, List.cons_append]
  | char hc _ _ ih =>
    rw [List.cons_append, unescape_char hc, unescape_char hc, ih, List.cons_append]

theorem not_lone : ¬ Masked harmless ['\\'] := by
  intro h
  cases h with
  | char hc => exact hc rfl

end Masked

theorem getLast?_cons_or (c : Char) (cs : List Char) (last : Option Char) :
    (c :: cs).getLast?.or last = cs.getLast?.or (some c) := by
  rw [List.getLast?_cons]
  cases cs.getLast? <;> rfl

theorem getLast?_append_or (cs ds : List Char) (last : Option Char) :
    (cs ++ ds).getLast?.or last = ds.getLast?.or (cs.getLast?.or last) := by
  rw [List.getLast?_append]
  cases ds.getLast? <;> rfl

/-- A part without quotes is cleaned by itself. If it ends in white space, that must be followed by
something that shows, and be kept or dropped on its own account. -/
theorem cleanFrom_append_part {part : List Char} (h : Masked (· ≠ '"') part) {rest : List Char}
    (hend : endsBlank part = true → (∀ c ∈ rest.head?, isSpace c = false) ∧
      (place.after part = .text 0 ∨ rest.head?.all isStructural = true)) :
    cleanFrom place last (part ++ rest) = cleanFrom place last part ++
      cleanFrom (place.after part) ((cleanFrom place last part).getLast?.or last) rest := by
  induction part using run_induction generalizing place last with
  | nil => rw [cleanFrom]; rfl
  | lone => exact absurd h Masked.not_lone
  | escape c cs ih =>
    by_cases hn : c = 'n'
    · subst hn
      rw [List.cons_append, List.cons_append, cleanFrom_feed, cleanFrom_feed, ih h.of_escape hend,
        List.cons_append, getLast?_cons_or]
      rfl
    · rw [List.cons_append, List.cons_append, cleanFrom_hidden hn, cleanFrom_hidden hn,
        ih h.of_escape hend, List.cons_append, List.cons_append, getLast?_cons_or,
        getLast?_cons_or]
      rfl
  | run run cs hne hrun hcs ih =>
    have hmasked := h.of_append (masked_of_blank hrun)
    rw [endsBlank_run hne hrun, Place.after_run hrun] at hend
    have hhead : ∀ c ∈ (cs ++ rest).head?, isSpace c = false := by
      cases cs with
      | nil => exact (hend rfl).1
      | cons d cs => exact hcs
    have hkept : cleanRun place last run (cs ++ rest) = cleanRun place last run cs := by
      cases cs with
      | nil =>
        rcases (hend rfl).2 with hplace | hall
        · have hplace : place = .text 0 := hplace
          rw [cleanRun, cleanRun, if_pos hplace, if_pos hplace]
        · rw [cleanRun, cleanRun, List.nil_append, hall]
          simp
      | cons d cs => rfl
    rw [List.append_assoc, cleanFrom_run hne hrun hhead, cleanFrom_run hne hrun hcs, hkept,
      ih hmasked fun hblank => hend (by rw [hblank, Bool.or_true]), Place.after_run hrun,
      getLast?_append_or, List.append_assoc]
  | char c cs hc hspace ih =>
    obtain ⟨hquote, hmasked⟩ := h.of_char hc
    rw [endsBlank_char hc hspace, Place.after_char hc] at hend
    rw [List.cons_append, cleanFrom_char hc hspace fun hseam => hquote hseam.2.1,
      cleanFrom_char hc hspace fun hseam => hquote hseam.2.1, ih hmasked hend,
      Place.after_char hc, getLast?_cons_or]
    rfl

/-- Cleaning brings no quotes into a part. -/
theorem masked_cleanFrom {part : List Char} (h : Masked (· ≠ '"') part) :
    Masked (· ≠ '"') (cleanFrom place last part) := by
  induction part using run_induction generalizing place last with
  | nil => rw [cleanFrom]; exact .nil
  | lone => exact absurd h Masked.not_lone
  | escape c cs ih =>
    by_cases hn : c = 'n'
    · subst hn
      rw [cleanFrom_feed]
      exact .char (by decide) (by decide) (ih h.of_escape)
    · rw [cleanFrom_hidden hn]
      exact .escape c (ih h.of_escape)
  | run run cs hne hrun hcs ih =>
    rw [cleanFrom_run hne hrun hcs]
    exact (masked_of_blank fun c hc => isSpace_of_mem_cleanRun hrun hc).append
      (ih (h.of_append (masked_of_blank hrun)))
  | char c cs hc hspace ih =>
    obtain ⟨hquote, hmasked⟩ := h.of_char hc
    rw [cleanFrom_char hc hspace fun hseam => hquote hseam.2.1]
    exact .char hc hquote (ih hmasked)

/-! ### Quoted texts -/

/-- Two quoted texts with nothing but white space between them become one. -/
theorem cleanFrom_seam {rest : List Char} (h : (trimStart rest).head? = some '"')
    (last : Option Char) : cleanFrom (.text 0) last ('"' :: rest) =
      '\n' :: cleanFrom (.text 0) (some '\n') ((trimStart rest).drop 1) := by
  have hshown : ¬ isSpace '"' = true := by decide
  rw [cleanFrom, if_neg hshown, if_pos ⟨rfl, rfl, h⟩]
  all_goals simp

/-- What cleaning leaves of a quoted text. -/
def kept (text : List Char) : List Char :=
  cleanFrom (.text 0) none text

/-- What is left of a quoted text does not depend on what is in front of it. -/
theorem cleanFrom_text (last : Option Char) (text : List Char) :
    cleanFrom (.text 0) last text = kept text := by
  rw [kept]
  cases text using run_induction with
  | nil => rw [cleanFrom, cleanFrom]
  | lone => rw [cleanFrom, cleanFrom]
  | escape c cs =>
    by_cases hn : c = 'n'
    · subst hn
      rw [cleanFrom_feed, cleanFrom_feed]
    · rw [cleanFrom_hidden hn, cleanFrom_hidden hn]
  | run run cs hne hrun hcs =>
    have hkept : cleanRun (.text 0) last run cs = cleanRun (.text 0) none run cs := rfl
    have hshown : cleanRun (.text 0) none run cs ≠ [] := by
      rw [cleanRun, if_pos rfl]
      split
      · exact List.cons_ne_nil _ _
      · exact hne
    rw [cleanFrom_run hne hrun hcs, cleanFrom_run hne hrun hcs, hkept,
      List.getLast?_eq_some_getLast hshown]
    rfl
  | char c cs hc hspace =>
    by_cases hseam : c = '"' ∧ (trimStart cs).head? = some '"'
    · obtain ⟨rfl, hcs⟩ := hseam
      rw [cleanFrom_seam hcs, cleanFrom_seam hcs]
    · rw [cleanFrom_char hc hspace fun h => hseam h.2, cleanFrom_char hc hspace fun h => hseam h.2]

/-- A run of spaces in a quoted text is kept, outside of all markers. -/
theorem kept_spaces {front behind : List Char} {n : Nat} (hfront : Masked (· ≠ '"') front)
    (hplace : (Place.text 0).after front = .text 0) (hshown : endsBlank front = false)
    (hbehind : ∀ c ∈ behind.head?, isSpace c = false) :
    kept (front ++ (List.replicate n ' ' ++ behind)) =
      kept front ++ (List.replicate n ' ' ++ kept behind) := by
  have hparts : kept (front ++ (List.replicate n ' ' ++ behind)) =
      kept front ++ kept (List.replicate n ' ' ++ behind) := by
    rw [kept, cleanFrom_append_part hfront (by simp [hshown]), hplace,
      cleanFrom_text _ (List.replicate n ' ' ++ behind)]
    rfl
  rw [hparts]
  cases n with
  | zero => rfl
  | succ n =>
    have hrun : ∀ c ∈ List.replicate (n + 1) ' ', isSpace c = true := fun c hc =>
      (List.mem_replicate.mp hc).2 ▸ by decide
    have hkept : cleanRun (.text 0) none (List.replicate (n + 1) ' ') behind =
        List.replicate (n + 1) ' ' := by
      simp [cleanRun]
    rw [kept.eq_1 (List.replicate (n + 1) ' ' ++ behind), cleanFrom_run (by simp) hrun hbehind,
      hkept, cleanFrom_text]

end Gamebook.Text
