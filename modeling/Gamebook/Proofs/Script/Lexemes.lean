import Gamebook.Proofs.Script.Gaps

/-!
# Lexemes of parts

Of what stands behind a lexeme nothing has a say in it. So a text that can go on neither a word nor
an operator may be put behind another one, which is read as before, unless it ends in a backslash
without a character to escape (`lexemesFrom_append`). And where the span of a lexeme says that it
stands, there stands a text that is this lexeme and nothing else (`lexemesFrom_first`).
-/

namespace Gamebook.Script

open Text

/-! ### One lexeme -/

theorem wordLength_ordinary {c : Char} {rest : List Char} (hc : c = '\\' → rest = []) :
    wordLength (c :: rest) = if isWordChar c then wordLength rest + 1 else 0 := by
  rw [wordLength]
  rintro d ds rfl rfl
  cases hc rfl

/-- What stands behind a word has no say in its length. -/
theorem wordLength_take {cs : List Char} {n : Nat} (h : wordLength cs ≤ n) :
    wordLength (cs.take n) = wordLength cs := by
  fun_induction wordLength cs generalizing n with
  | case1 c rest hbreak =>
    rcases n with _ | _ | n
    · rfl
    · rfl
    · rw [List.take_succ_cons, List.take_succ_cons, wordLength, if_pos hbreak]
  | case2 c rest hbreak ih =>
    obtain ⟨n, rfl⟩ := Nat.exists_eq_add_of_le' (Nat.le_of_add_left_le h)
    rw [List.take_succ_cons, List.take_succ_cons, wordLength, if_neg hbreak, ih (by omega)]
  | case3 c rest hc hword ih =>
    obtain ⟨n, rfl⟩ := Nat.exists_eq_add_of_le' (Nat.le_of_add_left_le h)
    rw [List.take_succ_cons, wordLength_char hword, ih (by omega)]
  | case4 c rest hc hword =>
    cases n with
    | zero => rfl
    | succ n =>
      rw [List.take_succ_cons, wordLength_ordinary, if_neg hword]
      rintro rfl
      cases rest with
      | nil => exact List.take_nil
      | cons d ds => exact absurd rfl (hc d ds rfl)
  | case5 => rw [List.take_nil]; rfl

/-- Behind a word no word goes on. -/
theorem wordLength_drop (cs : List Char) : wordLength (cs.drop (wordLength cs)) = 0 := by
  fun_induction wordLength cs with
  | case1 c rest hbreak => rw [List.drop_zero, wordLength, if_pos hbreak]
  | case2 c rest hbreak ih => exact ih
  | case3 c rest hc hword ih => exact ih
  | case4 c rest hc hword =>
    rw [List.drop_zero, wordLength, if_neg hword]
    exact hc
  | case5 => rfl

/-- What stands behind a lexeme has no say in it, if no more of it is looked at. -/
theorem Lexeme.ofText_take {c : Char} {rest : List Char} {n : Nat}
    (h : (Lexeme.ofText c rest).2 ≤ n) : Lexeme.ofText c (rest.take n) = Lexeme.ofText c rest := by
  have htake : c :: rest.take n = (c :: rest).take (n + 1) := List.take_succ_cons.symm
  have hfewer (entry : List Char × Token) (hentry : ¬ entry.1.isPrefixOf (c :: rest) = true) :
      ¬ entry.1.isPrefixOf (c :: rest.take n) = true := by
    rw [List.isPrefixOf_iff_prefix] at hentry ⊢
    exact fun hstarts => hentry (hstarts.trans (htake ▸ List.take_prefix _ _))
  rw [Lexeme.ofText] at h ⊢
  cases hfind : operators.find? fun entry => entry.1.isPrefixOf (c :: rest) with
  | some entry =>
    obtain ⟨spelling, t⟩ := entry
    obtain ⟨hhit, before, behind, hsplit, hbefore⟩ := List.find?_eq_some_iff_append.mp hfind
    have hlength : spelling.length ≤ n + 1 := by
      rw [hfind] at h
      exact Nat.le_add_of_sub_le h
    have hsame : operators.find? (fun entry => entry.1.isPrefixOf (c :: rest.take n)) =
        some (spelling, t) := by
      refine List.find?_eq_some_iff_append.mpr ⟨?_, before, behind, hsplit, fun entry hentry => ?_⟩
      · rw [List.isPrefixOf_iff_prefix] at hhit ⊢
        exact htake ▸ List.prefix_take_iff.mpr ⟨hhit, hlength⟩
      · have hmiss := hbefore entry hentry
        rw [Bool.not_eq_true', Bool.eq_false_iff] at hmiss ⊢
        exact hfewer entry hmiss
    rw [hsame, Lexeme.ofText, hfind]
  | none =>
    rw [hfind] at h
    have hnone : operators.find? (fun entry => entry.1.isPrefixOf (c :: rest.take n)) = none :=
      List.find?_eq_none.mpr fun entry hentry =>
        hfewer entry (List.find?_eq_none.mp hfind entry hentry)
    rw [hnone, Lexeme.ofText, hfind]
    dsimp only at h ⊢
    have hword : wordLength (c :: rest) ≤ n + 1 := by
      cases hlength : wordLength (c :: rest) with
      | zero => exact Nat.zero_le _
      | succ m =>
        rw [hlength] at h
        exact Nat.succ_le_succ h
    rw [htake, wordLength_take hword]
    cases hlength : wordLength (c :: rest) with
    | zero => rfl
    | succ m =>
      rw [hlength] at hword
      dsimp only
      rw [List.take_take, Nat.min_eq_left (Nat.le_of_succ_le_succ hword)]

theorem wordLength_le (cs : List Char) : wordLength cs ≤ cs.length := by
  fun_induction wordLength cs with
  | case2 c rest hbreak ih => simpa using ih
  | case3 c rest hc hword ih => simpa using ih
  | _ => exact Nat.zero_le _

/-- A lexeme does not reach beyond the text. -/
theorem Lexeme.ofText_le (c : Char) (rest : List Char) :
    (Lexeme.ofText c rest).2 ≤ rest.length := by
  rw [Lexeme.ofText]
  split
  next spelling t hfind =>
    have hhit := List.find?_some hfind
    rw [List.isPrefixOf_iff_prefix] at hhit
    have hlength := hhit.length_le
    rw [List.length_cons] at hlength
    exact Nat.sub_le_of_le_add hlength
  next =>
    have hlength := wordLength_le (c :: rest)
    rw [List.length_cons] at hlength
    split
    next => exact Nat.zero_le _
    next n hn =>
      rw [hn] at hlength
      exact Nat.le_of_succ_le_succ hlength

/-! ### One lexeme after the other -/

/-- Every text is read from one lexeme to the next, over the gaps between them. -/
@[elab_as_elim]
theorem lexeme_induction {P : List Char → Prop} (nil : P [])
    (gap : ∀ c rest, isGap c = true → P rest → P (c :: rest))
    (lexeme : ∀ c rest, isGap c = false → P (rest.drop (Lexeme.ofText c rest).2) → P (c :: rest))
    (cs : List Char) : P cs := by
  induction hn : cs.length using Nat.strongRecOn generalizing cs with
  | ind n ih =>
    subst hn
    cases cs with
    | nil => exact nil
    | cons c rest =>
      cases hgap : isGap c with
      | true => exact gap c rest hgap (ih rest.length (Nat.lt_succ_self _) rest rfl)
      | false =>
        refine lexeme c rest hgap (ih _ ?_ _ rfl)
        rw [List.length_drop, List.length_cons]
        omega

theorem lexemesFrom_gap {c : Char} (h : isGap c = true) (start : Nat) (rest : List Char) :
    lexemesFrom start (c :: rest) = lexemesFrom (start + c.utf8Size) rest := by
  rw [lexemesFrom, if_pos h]

/-- The place behind the first lexeme of a text. -/
theorem lexemesFrom_lexeme {c : Char} (h : isGap c = false) (start : Nat) (rest : List Char) :
    lexemesFrom start (c :: rest) =
      ⟨(Lexeme.ofText c rest).1,
        ⟨start, start + byteLength (c :: rest.take (Lexeme.ofText c rest).2)⟩⟩ ::
      lexemesFrom (start + byteLength (c :: rest.take (Lexeme.ofText c rest).2))
        (rest.drop (Lexeme.ofText c rest).2) := by
  rw [lexemesFrom, h, if_neg Bool.false_ne_true]
  rfl

theorem lexed_gap {c : Char} (h : isGap c = true) (rest : List Char) :
    lexed (c :: rest) = lexed rest := by
  rw [lexed, lexemes, lexemesFrom_gap h, map_value_lexemesFrom]

theorem lexed_lexeme {c : Char} (h : isGap c = false) (rest : List Char) :
    lexed (c :: rest) =
      (Lexeme.ofText c rest).1 :: lexed (rest.drop (Lexeme.ofText c rest).2) := by
  rw [lexed, lexemes, lexemesFrom_lexeme h, List.map_cons, map_value_lexemesFrom]

theorem operator_head {part : List Char} {t : Token} (h : (part, t) ∈ operators) :
    ∃ c rest, part = c :: rest ∧ isGap c = false := by
  have hheads : ∀ entry ∈ operators, entry.1.head?.any (!isGap ·) := by decide
  cases part with
  | nil => simpa using hheads _ h
  | cons c rest => exact ⟨c, rest, rfl, by simpa using hheads _ h⟩

/-- An operator, and what is read behind it. -/
theorem lexed_operator {spelling behind : List Char} {t : Token}
    (h : operators.find? (fun entry => entry.1.isPrefixOf (spelling ++ behind)) =
      some (spelling, t)) : lexed (spelling ++ behind) = .token t :: lexed behind := by
  obtain ⟨c, rest, rfl, hgap⟩ := operator_head (List.mem_of_find?_eq_some h)
  rw [List.cons_append] at h
  have hfirst : Lexeme.ofText c (rest ++ behind) = (.token t, rest.length) := by
    rw [Lexeme.ofText, h]
    rfl
  rw [List.cons_append, lexed_lexeme hgap, hfirst, List.drop_left]

section

variable {c : Char} {rest : List Char}
  (hnone : operators.find? (fun entry => entry.1.isPrefixOf (c :: rest)) = none)
include hnone

/-- A word, and what is read behind it. -/
theorem lexed_word (hgap : isGap c = false) (h : 0 < wordLength (c :: rest)) :
    lexed (c :: rest) =
      .token (.word (String.ofList (unescape ((c :: rest).take (wordLength (c :: rest)))))) ::
        lexed ((c :: rest).drop (wordLength (c :: rest))) := by
  obtain ⟨n, hn⟩ := Nat.exists_eq_add_of_lt h
  rw [Nat.zero_add] at hn
  have hfirst : Lexeme.ofText c rest =
      (.token (.word (String.ofList (unescape (c :: rest.take n)))), n) := by
    rw [Lexeme.ofText, hnone, hn]
  rw [lexed_lexeme hgap, hfirst, hn]
  rfl

/-- A character that starts nothing, and what is read behind it. -/
theorem lexed_unexpected (hgap : isGap c = false) (h : wordLength (c :: rest) = 0) :
    lexed (c :: rest) = .unexpected c :: lexed rest := by
  have hfirst : Lexeme.ofText c rest = (.unexpected c, 0) := by
    rw [Lexeme.ofText, hnone, h]
  rw [lexed_lexeme hgap, hfirst, List.drop_zero]

end

/-- A word does not go on in a text that it could not begin, unless a backslash is left over. -/
theorem wordLength_append {behind : List Char} (h : Stops behind) (cs : List Char) :
    wordLength (cs ++ behind) ≤ cs.length ∨
      ∃ raw, cs = raw ++ ['\\'] ∧ wordLength cs = raw.length := by
  fun_induction wordLength cs with
  | case1 c rest hbreak =>
    rw [List.cons_append, List.cons_append, wordLength, if_pos hbreak]
    exact .inl (Nat.zero_le _)
  | case2 c rest hbreak ih =>
    rw [List.cons_append, List.cons_append, wordLength, if_neg hbreak]
    refine ih.imp (fun hle => Nat.add_le_add_right hle 2) ?_
    rintro ⟨raw, rfl, hlength⟩
    exact ⟨'\\' :: c :: raw, rfl, congrArg (· + 2) hlength⟩
  | case3 c rest hc hword ih =>
    rw [List.cons_append, wordLength_char hword]
    refine ih.imp (fun hle => Nat.add_le_add_right hle 1) ?_
    rintro ⟨raw, rfl, hlength⟩
    exact ⟨c :: raw, rfl, congrArg (· + 1) hlength⟩
  | case4 c rest hc hword =>
    by_cases hlone : c = '\\' ∧ rest = []
    · obtain ⟨rfl, rfl⟩ := hlone
      exact .inr ⟨[], rfl, rfl⟩
    · rw [List.cons_append, wordLength_ordinary, if_neg hword]
      · exact .inl (Nat.zero_le _)
      · rintro rfl
        cases rest with
        | nil => exact absurd ⟨rfl, rfl⟩ hlone
        | cons d ds => exact absurd rfl (hc d ds rfl)
  | case5 =>
    rw [List.nil_append, wordLength_stop h]
    exact .inl (Nat.zero_le _)

/-- Whether a text goes on neither a word nor an operator in front of it. -/
def EndsLexeme (behind : List Char) : Prop :=
  Stops behind ∧ ∀ c ∈ behind.head?, c ≠ '=' ∧ c ≠ '>'

/-- An operator has a second character only to end in one of two signs, so it does not go on in a
text that begins with neither. -/
theorem operator_within {behind : List Char} (h : EndsLexeme behind) {entry : List Char × Token}
    (hentry : entry ∈ operators) {c : Char} {rest : List Char}
    (hstarts : entry.1 <+: c :: (rest ++ behind)) : entry.1.length - 1 ≤ rest.length := by
  have hsecond : ∀ entry ∈ operators, entry.1.length ≤ 2 ∧
      (entry.1[1]?.all fun d => d == '=' || d == '>') = true := by decide
  obtain ⟨hlength, hsigns⟩ := hsecond entry hentry
  cases rest with
  | cons d rest =>
    rw [List.length_cons]
    omega
  | nil =>
    obtain ⟨more, hmore⟩ := hstarts
    match hspelling : entry.1, hlength with
    | [], _ => exact Nat.zero_le _
    | [_], _ => exact Nat.zero_le _
    | [a, b], _ =>
      rw [hspelling] at hsigns hmore
      have htail : b :: more = behind := (List.cons.inj hmore).2
      have hhead : behind.head? = some b := by
        rw [← htail]
        rfl
      have hsign : b = '=' ∨ b = '>' := by simpa using hsigns
      exact absurd hsign (not_or.mpr (h.2 b hhead))

/-- A lexeme does not go on in a text that ends it, unless a backslash is left over. -/
theorem Lexeme.ofText_append {behind : List Char} (h : EndsLexeme behind) {c : Char}
    (hgap : isGap c = false) (rest : List Char) :
    Lexeme.ofText c (rest ++ behind) = Lexeme.ofText c rest ∨
      .unexpected '\\' ∈ lexed (c :: rest) := by
  have hwithin (hle : (Lexeme.ofText c (rest ++ behind)).2 ≤ rest.length) :
      Lexeme.ofText c (rest ++ behind) = Lexeme.ofText c rest := by
    have htake := Lexeme.ofText_take hle
    rw [List.take_left] at htake
    exact htake.symm
  cases hfind : operators.find? fun entry => entry.1.isPrefixOf (c :: (rest ++ behind)) with
  | some entry =>
    have hhit := List.find?_some hfind
    rw [List.isPrefixOf_iff_prefix] at hhit
    refine .inl (hwithin ?_)
    rw [Lexeme.ofText, hfind]
    exact operator_within h (List.mem_of_find?_eq_some hfind) hhit
  | none =>
    rcases wordLength_append h.1 (c :: rest) with hle | ⟨raw, hraw, hlength⟩
    · refine .inl (hwithin ?_)
      rw [Lexeme.ofText, hfind]
      dsimp only
      rw [List.cons_append] at hle
      cases hlength : wordLength (c :: (rest ++ behind)) with
      | zero => exact Nat.zero_le _
      | succ n =>
        rw [hlength] at hle
        exact Nat.le_of_succ_le_succ hle
    · -- the word ends in front of a backslash that starts no token
      have hlone : lexed ['\\'] = [.unexpected '\\'] := (lexed_lexeme rfl []).trans (by
        rw [List.drop_nil, lexed, lexemes, lexemesFrom]
        rfl)
      refine .inr ?_
      cases raw with
      | nil =>
        rw [hraw, List.nil_append, hlone]
        exact List.mem_singleton.mpr rfl
      | cons d raw =>
        rw [List.cons_append] at hraw
        obtain ⟨rfl, rfl⟩ := List.cons.inj hraw
        have hnone : operators.find? (fun entry => entry.1.isPrefixOf (c :: (raw ++ ['\\']))) =
            none := by
          refine List.find?_eq_none.mpr fun entry hentry hhit => ?_
          refine List.find?_eq_none.mp hfind entry hentry ?_
          rw [List.isPrefixOf_iff_prefix] at hhit ⊢
          exact hhit.trans (List.prefix_append (c :: (raw ++ ['\\'])) behind)
        have hmore : (Lexeme.ofText c (raw ++ ['\\'])).2 = raw.length := by
          rw [Lexeme.ofText, hnone, hlength]
          rfl
        rw [lexed_lexeme hgap, hmore, List.drop_left, hlone]
        exact List.mem_cons_of_mem _ (List.mem_singleton.mpr rfl)

/-- A text in front of one that ends its last lexeme is read as by itself, if no backslash is left
over in it. -/
theorem lexemesFrom_append {behind : List Char} (h : EndsLexeme behind) (start : Nat)
    {front : List Char} (hfront : .unexpected '\\' ∉ lexed front) :
    lexemesFrom start (front ++ behind) =
      lexemesFrom start front ++ lexemesFrom (start + byteLength front) behind := by
  induction front using lexeme_induction generalizing start with
  | nil =>
    rw [List.nil_append, lexemesFrom, List.nil_append]
    rfl
  | gap c rest hgap ih =>
    rw [lexed_gap hgap] at hfront
    rw [List.cons_append, lexemesFrom_gap hgap, lexemesFrom_gap hgap, ih _ hfront, byteLength_cons,
      Nat.add_assoc]
  | lexeme c rest hgap ih =>
    have hsame := (Lexeme.ofText_append h hgap rest).resolve_right hfront
    have hle := Lexeme.ofText_le c rest
    rw [lexed_lexeme hgap] at hfront
    have hrest : byteLength (c :: rest) =
        byteLength (c :: rest.take (Lexeme.ofText c rest).2) +
          byteLength (rest.drop (Lexeme.ofText c rest).2) := by
      rw [← byteLength_append, List.cons_append, List.take_append_drop]
    rw [List.cons_append, lexemesFrom_lexeme hgap, lexemesFrom_lexeme hgap, hsame,
      List.take_append_of_le_length hle, List.drop_append_of_le_length hle,
      ih _ fun hmem => hfront (List.mem_cons_of_mem _ hmem), hrest, List.cons_append, Nat.add_assoc]

/-! ### Places -/

/-- Whether a text is one lexeme and nothing else. -/
def Lexeme.Takes (l : Lexeme) (text : List Char) : Prop :=
  ∃ c rest, text = c :: rest ∧ isGap c = false ∧ Lexeme.ofText c rest = (l, rest.length)

/-- The span of the first lexeme of a text is that of its own text, and nothing but gaps stands in
front of it. -/
theorem lexemesFrom_first {start : Nat} {cs : List Char} {l : Located Lexeme}
    {ls : List (Located Lexeme)} (h : lexemesFrom start cs = l :: ls) :
    ∃ gap text behind, cs = gap ++ (text ++ behind) ∧ (∀ c ∈ gap, isGap c = true) ∧
      l.value.Takes text ∧
      l.span = ⟨start + byteLength gap, start + byteLength gap + byteLength text⟩ ∧
      lexemesFrom (start + byteLength gap + byteLength text) behind = ls := by
  induction cs using lexeme_induction generalizing start with
  | nil =>
    rw [lexemesFrom] at h
    cases h
  | gap c rest hgap ih =>
    rw [lexemesFrom_gap hgap] at h
    obtain ⟨gap, text, behind, rfl, hgaps, htext, hspan, hbehind⟩ := ih h
    refine ⟨c :: gap, text, behind, rfl, List.forall_mem_cons.mpr ⟨hgap, hgaps⟩, htext, ?_, ?_⟩
    · rwa [byteLength_cons, ← Nat.add_assoc]
    · rwa [byteLength_cons, ← Nat.add_assoc]
  | lexeme c rest hgap =>
    have hle := Lexeme.ofText_le c rest
    have htake := Lexeme.ofText_take (Nat.le_refl (Lexeme.ofText c rest).2)
    rw [lexemesFrom_lexeme hgap] at h
    obtain ⟨rfl, hbehind⟩ := List.cons.inj h
    refine ⟨[], c :: rest.take (Lexeme.ofText c rest).2, rest.drop (Lexeme.ofText c rest).2, ?_,
      by simp, ⟨c, _, rfl, hgap, ?_⟩, rfl, hbehind⟩
    · rw [List.nil_append, List.cons_append, List.take_append_drop]
    · rw [htake, List.length_take_of_le hle]

/-- Lexemes are parted where the text is. -/
theorem lexemesFrom_behind {start : Nat} {cs : List Char} {ls ms : List (Located Lexeme)}
    (h : lexemesFrom start cs = ls ++ ms) :
    ∃ front behind, cs = front ++ behind ∧ lexemesFrom (start + byteLength front) behind = ms := by
  induction ls generalizing start cs with
  | nil => exact ⟨[], cs, rfl, h⟩
  | cons l ls ih =>
    obtain ⟨gap, text, more, rfl, -, -, -, hmore⟩ := lexemesFrom_first h
    obtain ⟨front, behind, rfl, hbehind⟩ := ih hmore
    refine ⟨gap ++ (text ++ front), behind, by simp only [List.append_assoc], ?_⟩
    rwa [byteLength_append, byteLength_append, ← Nat.add_assoc, ← Nat.add_assoc]

end Gamebook.Script
