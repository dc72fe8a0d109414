import Gamebook.Proofs.Script.Lexemes
import Gamebook.Proofs.Text.Boundaries
import Mathlib.Data.List.Sort

/-!
# Lexemes tile the text

The tokens of a text and the characters in it that start none come in two rows, each with its span.
Put in one row, in the order of their spans, they make up all of the text with the gaps between
them, and none reaches into another (`Script.Tiles`). Each of them is what stands at its span: the
longest operator or the longest word that begins there, or one character with which neither begins
(`Script.Lexeme.Fits`).

This says all there is to say about them: there is one row only of which it is true
(`Script.tiles_iff`).
-/

namespace Gamebook.Script

open Text

/-! ### What a lexeme takes of a text -/

/-- A text of ordinary characters and of escapes, as a word is spelled. -/
inductive WordText : List Char → Prop
  /-- The empty text. -/
  | nil : WordText []
  /-- An ordinary character in front. -/
  | char {c : Char} {cs : List Char} : isWordChar c = true → WordText cs → WordText (c :: cs)
  /-- An escaped character in front. -/
  | escape {c : Char} {cs : List Char} : c ≠ '\r' → c ≠ '\n' → WordText cs →
      WordText ('\\' :: c :: cs)

/-- The longest part of a text, from its front on, that is spelled like a word. -/
structure LongestWord (part cs : List Char) : Prop where
  starts : part <+: cs
  word : WordText part
  longest : ∀ longer, longer <+: cs → WordText longer → longer.length ≤ part.length

/-- The longest operator with which a text begins. -/
structure LongestOperator (part : List Char) (t : Token) (cs : List Char) : Prop where
  starts : part <+: cs
  operator : (part, t) ∈ operators
  longest : ∀ entry ∈ operators, entry.1 <+: cs → entry.1.length ≤ part.length

/-- Whether a lexeme is what stands in a part of a text, in front of the rest of it. -/
def Lexeme.Fits (part behind : List Char) : Lexeme → Prop
  | .token (.word text) => part ≠ [] ∧ LongestWord part (part ++ behind) ∧
      text = String.ofList (unescape part)
  | .token t => LongestOperator part t (part ++ behind)
  | .unexpected c => part = [c] ∧ isGap c = false ∧ LongestWord [] (part ++ behind) ∧
      ∀ entry ∈ operators, ¬ entry.1 <+: part ++ behind

/-- Whether lexemes, and gaps between them, make up all of a text from a position on. -/
inductive Tiles (text : String) : Nat → List (Located Lexeme) → Prop
  /-- A gap that reaches to the end. -/
  | stop {pos : Nat} {gap : List Char} :
      slice? text pos text.utf8ByteSize = some gap → (∀ c ∈ gap, isGap c = true) →
      Tiles text pos []
  /-- A lexeme behind a gap. -/
  | lexeme {pos : Nat} {l : Located Lexeme} {ls : List (Located Lexeme)}
      {gap part behind : List Char} :
      slice? text pos l.span.start = some gap → (∀ c ∈ gap, isGap c = true) →
      slice? text l.span.start l.span.stop = some part →
      slice? text l.span.stop text.utf8ByteSize = some behind → l.value.Fits part behind →
      Tiles text l.span.stop ls → Tiles text pos (l :: ls)

/-- Tokens, and behind them characters that start none. -/
def together (tokens : List (Located Token)) (unexpected : List (Located Char)) :
    List (Located Lexeme) :=
  tokens.map (fun t => ⟨.token t.value, t.span⟩) ++
    unexpected.map fun c => ⟨.unexpected c.value, c.span⟩

/-- Tokens, and characters that start none, in the order of their spans. -/
def inOrder (tokens : List (Located Token)) (unexpected : List (Located Char)) :
    List (Located Lexeme) :=
  (together tokens unexpected).mergeSort fun l m => l.span.start ≤ m.span.start

/-! ### Words -/

theorem wordText_take (cs : List Char) : WordText (cs.take (wordLength cs)) := by
  fun_induction wordLength cs with
  | case1 | case4 | case5 => exact .nil
  | case2 c rest hbreak ih =>
    simp only [Bool.or_eq_true, beq_iff_eq, not_or] at hbreak
    exact .escape hbreak.1 hbreak.2 ih
  | case3 c rest hc hword ih => exact .char hword ih

/-- Every text is read from one lexeme to the next, be it an operator, a word, or a character that
starts neither, over the gaps between them. -/
@[elab_as_elim]
theorem lexed_induction {P : List Char → Prop} (nil : P [])
    (gap : ∀ c rest, isGap c = true → P rest → P (c :: rest))
    (operator : ∀ spelling t behind,
      operators.find? (fun entry => entry.1.isPrefixOf (spelling ++ behind)) = some (spelling, t) →
      P behind → P (spelling ++ behind))
    (word : ∀ raw behind, WordText raw → raw ≠ [] → wordLength behind = 0 →
      lexed (raw ++ behind) = .token (.word (String.ofList (unescape raw))) :: lexed behind →
      P behind → P (raw ++ behind))
    (unexpected : ∀ c rest, isGap c = false →
      operators.find? (fun entry => entry.1.isPrefixOf (c :: rest)) = none →
      wordLength (c :: rest) = 0 → P rest → P (c :: rest))
    (cs : List Char) : P cs := by
  induction hn : cs.length using Nat.strongRecOn generalizing cs with
  | ind n ih =>
    subst hn
    rcases cs with _ | ⟨c, rest⟩
    · exact nil
    cases hgap : isGap c with
    | true => exact gap c rest hgap (ih rest.length (Nat.lt_succ_self _) rest rfl)
    | false =>
      cases hfind : operators.find? fun entry => entry.1.isPrefixOf (c :: rest) with
      | some entry =>
        obtain ⟨spelling, t⟩ := entry
        have hhit := List.find?_some hfind
        rw [List.isPrefixOf_iff_prefix] at hhit
        obtain ⟨behind, hsplit⟩ := hhit
        obtain ⟨d, more, rfl, -⟩ := operator_head (List.mem_of_find?_eq_some hfind)
        rw [← hsplit] at hfind ih ⊢
        refine operator _ t behind hfind (ih _ ?_ behind rfl)
        rw [List.length_append, List.length_cons]
        omega
      | none =>
        by_cases hlength : wordLength (c :: rest) = 0
        · exact unexpected c rest hgap hfind hlength (ih _ (Nat.lt_succ_self _) rest rfl)
        · have hpos := Nat.pos_of_ne_zero hlength
          have htake := List.length_take_of_le (wordLength_le (c :: rest))
          have hsplit := List.take_append_drop (wordLength (c :: rest)) (c :: rest)
          have hword := word _ _ (wordText_take (c :: rest))
            (List.length_pos_iff.mp (htake.symm ▸ hpos)) (wordLength_drop (c :: rest))
          rw [hsplit] at hword
          refine hword (lexed_word hfind hgap hpos) (ih _ ?_ _ rfl)
          rw [List.length_drop, List.length_cons]
          omega

/-- A word goes on as long as it can. -/
theorem WordText.length_le {part cs : List Char} (h : WordText part) (hstarts : part <+: cs) :
    part.length ≤ wordLength cs := by
  obtain ⟨behind, rfl⟩ := hstarts
  induction h with
  | nil => exact Nat.zero_le _
  | char hword _ ih =>
    rw [List.cons_append, wordLength_char hword]
    exact Nat.succ_le_succ ih
  | escape hreturn hfeed _ ih =>
    rw [List.cons_append, List.cons_append, wordLength, if_neg (by simp [hreturn, hfeed])]
    exact Nat.add_le_add_right ih 2

theorem longestWord_iff {part cs : List Char} :
    LongestWord part cs ↔ part = cs.take (wordLength cs) := by
  have hle := wordLength_le cs
  constructor
  · intro h
    have hupper := h.word.length_le h.starts
    have hlower := h.longest _ (List.take_prefix _ cs) (wordText_take cs)
    rw [List.length_take_of_le hle] at hlower
    rw [← Nat.le_antisymm hupper hlower]
    exact List.prefix_iff_eq_take.mp h.starts
  · rintro rfl
    refine ⟨List.take_prefix _ cs, wordText_take cs, fun longer hstarts hword => ?_⟩
    rw [List.length_take_of_le hle]
    exact hword.length_le hstarts

/-! ### Operators -/

/-- The first operator of the list that fits is the longest one. -/
theorem longestOperator_iff {part cs : List Char} {t : Token} : LongestOperator part t cs ↔
    operators.find? (fun entry => entry.1.isPrefixOf cs) = some (part, t) := by
  have hlonger : operators.Pairwise fun entry later => later.1.length ≤ entry.1.length := by decide
  have hspelling : ∀ entry ∈ operators, ∀ other ∈ operators,
      entry.1 = other.1 → entry = other := by decide
  constructor
  · intro h
    cases hfind : operators.find? fun entry => entry.1.isPrefixOf cs with
    | none =>
      exact absurd (List.isPrefixOf_iff_prefix.mpr h.starts)
        (List.find?_eq_none.mp hfind _ h.operator)
    | some entry =>
      obtain ⟨hhit, before, after, hsplit, hbefore⟩ := List.find?_eq_some_iff_append.mp hfind
      have hentry := List.mem_of_find?_eq_some hfind
      rw [List.isPrefixOf_iff_prefix] at hhit
      -- the operator stands in the list where the first one that fits stands, or behind it
      have hle : part.length ≤ entry.1.length := by
        have hmem := h.operator
        rw [hsplit] at hmem hlonger
        rcases List.mem_append.mp hmem with hmem | hmem
        · have hmiss := hbefore _ hmem
          rw [Bool.not_eq_true', ← Bool.not_eq_true, List.isPrefixOf_iff_prefix] at hmiss
          exact absurd h.starts hmiss
        · rcases List.mem_cons.mp hmem with hsame | hmem
          · rw [← hsame]
          · exact (List.pairwise_cons.mp (List.pairwise_append.mp hlonger).2.1).1 _ hmem
      have hlength := Nat.le_antisymm (h.longest entry hentry hhit) hle
      have heq : entry.1 = part :=
        (List.prefix_of_prefix_length_le hhit h.starts (Nat.le_of_eq hlength)).eq_of_length hlength
      rw [hspelling entry hentry (part, t) h.operator heq]
  · intro hfind
    obtain ⟨hhit, before, after, hsplit, hbefore⟩ := List.find?_eq_some_iff_append.mp hfind
    rw [List.isPrefixOf_iff_prefix] at hhit
    refine ⟨hhit, List.mem_of_find?_eq_some hfind, fun entry hentry hstarts => ?_⟩
    rw [hsplit] at hentry hlonger
    rcases List.mem_append.mp hentry with hentry | hentry
    · have hmiss := hbefore entry hentry
      rw [Bool.not_eq_true', ← Bool.not_eq_true, List.isPrefixOf_iff_prefix] at hmiss
      exact absurd hstarts hmiss
    · rcases List.mem_cons.mp hentry with rfl | hentry
      · exact Nat.le_refl _
      · exact (List.pairwise_cons.mp (List.pairwise_append.mp hlonger).2.1).1 entry hentry

theorem find?_operators_eq_none_iff {cs : List Char} :
    operators.find? (fun entry => entry.1.isPrefixOf cs) = none ↔
      ∀ entry ∈ operators, ¬ entry.1 <+: cs := by
  simp only [List.find?_eq_none, List.isPrefixOf_iff_prefix]

/-! ### One lexeme -/

/-- No operator is a word. -/
theorem fits_operator {part behind : List Char} {t : Token} (h : (part, t) ∈ operators) :
    (Lexeme.token t).Fits part behind ↔ LongestOperator part t (part ++ behind) := by
  cases t with
  | word text => simp [operators] at h
  | _ => exact Iff.rfl

theorem Lexeme.ofText_operator {c : Char} {rest behind : List Char} {t : Token}
    (h : LongestOperator (c :: rest) t (c :: (rest ++ behind))) :
    Lexeme.ofText c (rest ++ behind) = (.token t, rest.length) := by
  rw [Lexeme.ofText, longestOperator_iff.mp h]
  rfl

theorem Lexeme.ofText_word {c : Char} {rest behind : List Char}
    (h : LongestWord (c :: rest) (c :: (rest ++ behind))) :
    Lexeme.ofText c (rest ++ behind) =
        (.token (.word (String.ofList (unescape (c :: rest)))), rest.length) ∧
      isGap c = false := by
  have hlength : wordLength (c :: (rest ++ behind)) = (c :: rest).length := by
    have htake := congrArg List.length (longestWord_iff.mp h)
    rw [List.length_take_of_le (wordLength_le _)] at htake
    exact htake.symm
  have hhead : isGap c = false ∧ (c = '\\' ∨ c ∉ reserved) := by
    cases h.word with
    | char hword =>
      refine ⟨isGap_of_isWordChar hword, .inr fun hreserved => ?_⟩
      rw [isWordChar, List.contains_iff_mem.mpr hreserved, Bool.not_true, Bool.and_false] at hword
      cases hword
    | escape => exact ⟨rfl, .inl rfl⟩
  exact ⟨ofText_wordy hhead.2 hlength, hhead.1⟩

theorem Lexeme.ofText_unexpected {c : Char} {behind : List Char} (h : LongestWord [] (c :: behind))
    (hnone : ∀ entry ∈ operators, ¬ entry.1 <+: c :: behind) :
    Lexeme.ofText c behind = (.unexpected c, 0) := by
  have hlength : wordLength (c :: behind) = 0 := by
    have htake := congrArg List.length (longestWord_iff.mp h)
    rw [List.length_take_of_le (wordLength_le _)] at htake
    exact htake.symm
  rw [Lexeme.ofText, find?_operators_eq_none_iff.mpr hnone, hlength]

/-- What is read at the head of a text is what fits there, and nothing else does. -/
theorem Lexeme.fits_iff {l : Lexeme} {part behind : List Char} : l.Fits part behind ↔
    ∃ c rest, part = c :: rest ∧ isGap c = false ∧
      Lexeme.ofText c (rest ++ behind) = (l, rest.length) := by
  constructor
  · intro h
    cases l with
    | unexpected c =>
      obtain ⟨rfl, hgap, hword, hnone⟩ := h
      exact ⟨c, [], rfl, hgap, ofText_unexpected hword hnone⟩
    | token t =>
      by_cases hword : ∃ text, t = .word text
      · obtain ⟨text, rfl⟩ := hword
        obtain ⟨hne, hlongest, rfl⟩ := h
        obtain ⟨c, rest, rfl⟩ := List.exists_cons_of_ne_nil hne
        obtain ⟨hread, hgap⟩ := ofText_word hlongest
        exact ⟨c, rest, rfl, hgap, hread⟩
      · have hlongest : LongestOperator part t (part ++ behind) := by
          cases t with
          | word text => exact absurd ⟨text, rfl⟩ hword
          | _ => exact h
        obtain ⟨c, rest, rfl, hgap⟩ := operator_head hlongest.operator
        exact ⟨c, rest, rfl, hgap, ofText_operator hlongest⟩
  · rintro ⟨c, rest, rfl, hgap, hread⟩
    rw [Lexeme.ofText] at hread
    split at hread
    next spelling t hfind =>
      obtain ⟨rfl, hlength⟩ := Prod.mk.inj hread
      have hlongest := longestOperator_iff.mpr hfind
      obtain ⟨d, more, rfl, -⟩ := operator_head hlongest.operator
      have hmore : d :: more = c :: rest :=
        (List.prefix_of_prefix_length_le hlongest.starts (List.prefix_append (c :: rest) behind)
          (Nat.succ_le_succ (Nat.le_of_eq hlength))).eq_of_length (congrArg (· + 1) hlength)
      rw [hmore] at hlongest
      exact (fits_operator hlongest.operator).mpr hlongest
    next hfind =>
      have hlongest : LongestWord _ (c :: (rest ++ behind)) := longestWord_iff.mpr rfl
      split at hread
      next hzero =>
        obtain ⟨rfl, hlength⟩ := Prod.mk.inj hread
        obtain rfl := List.eq_nil_of_length_eq_zero hlength.symm
        rw [hzero] at hlongest
        exact ⟨rfl, hgap, hlongest, find?_operators_eq_none_iff.mp hfind⟩
      next n hn =>
        obtain ⟨rfl, rfl⟩ := Prod.mk.inj hread
        rw [hn, List.take_succ_cons, List.take_left] at hlongest
        rw [List.take_left]
        exact ⟨List.cons_ne_nil c rest, hlongest, rfl⟩

/-! ### A row of lexemes -/

section Row

variable {text : String} {pos : Nat}

theorem lexemesFrom_gaps {gap : List Char} (hgap : ∀ c ∈ gap, isGap c = true) (start : Nat)
    (cs : List Char) :
    lexemesFrom start (gap ++ cs) = lexemesFrom (start + byteLength gap) cs := by
  induction gap generalizing start with
  | nil => rfl
  | cons c gap ih =>
    rw [List.cons_append, lexemesFrom_gap (hgap c List.mem_cons_self),
      ih (fun d hd => hgap d (List.mem_cons_of_mem c hd)), byteLength_cons, Nat.add_assoc]

/-- A gap may begin a character earlier. -/
theorem Tiles.gap {c : Char} {rest : List Char} {ls : List (Located Lexeme)}
    (h : At text pos (c :: rest)) (hc : isGap c = true) (ht : Tiles text (pos + c.utf8Size) ls) :
    Tiles text pos ls := by
  have hlonger {stop : Nat} {gap : List Char}
      (hslice : slice? text (pos + c.utf8Size) stop = some gap) :
      slice? text pos stop = some (c :: gap) := by
    obtain ⟨behind, rfl, rfl, -⟩ := h.next.exists_of_slice? hslice
    have hwhole : At text pos ((c :: gap) ++ behind) := h
    rw [Nat.add_assoc, ← byteLength_cons]
    exact hwhole.slice?_eq
  cases ht with
  | stop hslice hgap => exact .stop (hlonger hslice) (List.forall_mem_cons.mpr ⟨hc, hgap⟩)
  | lexeme hslice hgap hpart hbehind hfits hrest =>
    exact .lexeme (hlonger hslice) (List.forall_mem_cons.mpr ⟨hc, hgap⟩) hpart hbehind hfits hrest

/-- What is read from a position on makes up the text from there. -/
theorem tiles_lexemesFrom {cs : List Char} (h : At text pos cs) :
    Tiles text pos (lexemesFrom pos cs) := by
  induction cs using lexeme_induction generalizing pos with
  | nil =>
    rw [lexemesFrom]
    exact .stop h.slice?_end (by simp)
  | gap c rest hgap ih =>
    rw [lexemesFrom_gap hgap]
    exact (ih h.next).gap h hgap
  | lexeme c rest hgap ih =>
    have hsplit : At text pos (c :: rest.take (Lexeme.ofText c rest).2 ++
        rest.drop (Lexeme.ofText c rest).2) := by
      rwa [List.cons_append, List.take_append_drop]
    have hfits : (Lexeme.ofText c rest).1.Fits (c :: rest.take (Lexeme.ofText c rest).2)
        (rest.drop (Lexeme.ofText c rest).2) := by
      refine Lexeme.fits_iff.mpr ⟨c, _, rfl, hgap, ?_⟩
      rw [List.take_append_drop, List.length_take_of_le (Lexeme.ofText_le c rest)]
    rw [lexemesFrom_lexeme hgap]
    exact .lexeme (h.slice?_take 0) (by simp) hsplit.slice?_eq hsplit.append.slice?_end hfits
      (ih hsplit.append)

/-- What makes up the text from a position on is what is read from there. -/
theorem Tiles.eq_lexemesFrom {ls : List (Located Lexeme)} (ht : Tiles text pos ls) {cs : List Char}
    (h : At text pos cs) : ls = lexemesFrom pos cs := by
  induction ht generalizing cs with
  | @stop pos gap hslice hgap =>
    obtain rfl : cs = gap := Option.some.inj (h.slice?_end.symm.trans hslice)
    have hnone := lexemesFrom_gaps hgap pos []
    rw [List.append_nil, lexemesFrom] at hnone
    exact hnone.symm
  | @lexeme pos l ls gap part behind hslice hgap hpart hbehind hfits _ ih =>
    obtain ⟨rest, rfl, hstart, hrest⟩ := h.exists_of_slice? hslice
    obtain ⟨behind', rfl, hstop, hat⟩ := hrest.exists_of_slice? hpart
    obtain rfl : behind' = behind := Option.some.inj (hat.slice?_end.symm.trans hbehind)
    obtain ⟨c, more, rfl, hc, hread⟩ := Lexeme.fits_iff.mp hfits
    have hspan : l.span = ⟨l.span.start, l.span.start + byteLength (c :: more)⟩ := by
      rw [← hstop]
    rw [lexemesFrom_gaps hgap, ← hstart, List.cons_append, lexemesFrom_lexeme hc, hread,
      List.take_left, List.drop_left, ← hstop, ← ih hat]

/-! ### Tokens and unexpected characters in one row -/

theorem le_of_mem_lexemesFrom {cs : List Char} {l : Located Lexeme}
    (h : l ∈ lexemesFrom pos cs) : pos ≤ l.span.start := by
  induction cs using lexeme_induction generalizing pos with
  | nil =>
    rw [lexemesFrom] at h
    cases h
  | gap c rest hgap ih =>
    rw [lexemesFrom_gap hgap] at h
    exact Nat.le_of_add_right_le (ih h)
  | lexeme c rest hgap ih =>
    rw [lexemesFrom_lexeme hgap] at h
    rcases List.mem_cons.mp h with rfl | h
    · exact Nat.le_refl _
    · exact Nat.le_of_add_right_le (ih h)

/-- Each lexeme starts further on than those in front of it. -/
theorem lexemesFrom_pairwise (pos : Nat) (cs : List Char) :
    (lexemesFrom pos cs).Pairwise fun l m => l.span.start < m.span.start := by
  induction cs using lexeme_induction generalizing pos with
  | nil =>
    rw [lexemesFrom]
    exact .nil
  | gap c rest hgap ih =>
    rw [lexemesFrom_gap hgap]
    exact ih _
  | lexeme c rest hgap ih =>
    rw [lexemesFrom_lexeme hgap]
    refine List.pairwise_cons.mpr ⟨fun m hm => ?_, ih _⟩
    have hle := le_of_mem_lexemesFrom hm
    have hsize := Char.utf8Size_pos c
    rw [byteLength_cons] at hle
    dsimp only
    omega

theorem perm_together (ls : List (Located Lexeme)) :
    (together (tokensOf ls) (unexpectedOf ls)).Perm ls := by
  induction ls with
  | nil => exact .nil
  | cons l ls ih =>
    obtain ⟨value, span⟩ := l
    cases value with
    | token t => exact ih.cons _
    | unexpected c => exact List.perm_middle.trans (ih.cons _)

/-- A row in the order of its spans is what its tokens and its other characters make up. -/
theorem inOrder_rows {ls : List (Located Lexeme)}
    (h : ls.Pairwise fun l m => l.span.start < m.span.start) :
    inOrder (tokensOf ls) (unexpectedOf ls) = ls := by
  have hperm : (inOrder (tokensOf ls) (unexpectedOf ls)).Perm ls :=
    (List.mergeSort_perm _ _).trans (perm_together ls)
  have hsorted : (inOrder (tokensOf ls) (unexpectedOf ls)).Pairwise
      fun l m => decide (l.span.start ≤ m.span.start) = true := by
    refine List.pairwise_mergeSort (fun _ _ _ hlm hmn => ?_) (fun l m => ?_) _
    · exact decide_eq_true (Nat.le_trans (of_decide_eq_true hlm) (of_decide_eq_true hmn))
    · simpa only [Bool.or_eq_true, decide_eq_true_eq] using Nat.le_total l.span.start m.span.start
  have hnodup : (ls.map (·.span.start)).Nodup := List.pairwise_map.mpr (h.imp Nat.ne_of_lt)
  refine hperm.eq_of_pairwise (fun l m hl hm hlm hml => ?_) hsorted
    (h.imp fun hlt => decide_eq_true (Nat.le_of_lt hlt))
  exact List.inj_on_of_nodup_map hnodup (hperm.mem_iff.mp hl) hm
    (Nat.le_antisymm (of_decide_eq_true hlm) (of_decide_eq_true hml))

end Row

/-- Lexing loses nothing. The tokens of a text and the characters in it that start none, in their
order and with the gaps between them, make up all of the text, each as long as it can be; and no
other ones do. -/
theorem tiles_iff (text : String) (ls : List (Located Lexeme)) : Tiles text 0 ls ↔
    ls = inOrder (tokensOf (lexemes text.toList)) (unexpectedOf (lexemes text.toList)) := by
  rw [lexemes, inOrder_rows (lexemesFrom_pairwise 0 text.toList)]
  constructor
  · exact fun h => h.eq_lexemesFrom (At.start text)
  · rintro rfl
    exact tiles_lexemesFrom (At.start text)

end Gamebook.Script
