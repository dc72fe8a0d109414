import Gamebook.Proofs.Pattern.Tokens
import Gamebook.Proofs.Script.Alike
import Gamebook.Proofs.Text.Joining

/-!
# Names with a noun in the hole

The grammar reads the tokens of a text with the noun in the hole as it reads those of the text
itself, up to the hole in the names (`Filling.lexical_beside`). The one place where that could fail
is behind `#`: a noun that begins with a numeral would be taken for an integer there.
-/

namespace Gamebook

open Text Script

/-! ### Rows of tokens -/

/-- Whether a row begins with a word where a numeral would be read instead, perhaps behind minus
signs. -/
def Filling.Counts (F : Filling) : List Token → Prop
  | .minus :: us => F.Counts us
  | .word text :: _ => F.Numbers text.toList
  | _ => False

/-- A row of tokens and the row in place of it. Behind a sign `#` no word becomes a numeral. -/
structure Filling.Beside (F : Filling) (m : Nat) (ts us : Tokens) : Prop where
  length : ts.length = m
  values : us.values = ts.values.flatMap F.token
  uncounted : ∀ front behind, ts.values = front ++ .hash :: behind → ¬ F.Counts behind

namespace Filling

open Parser

variable {F : Filling} {α : Type} {m n : Nat} {ts us : Tokens} {t : Located Token}

namespace Beside

theorem nil (h : F.Beside m [] us) : us = [] :=
  List.map_eq_nil_iff.mp h.values

/-- In place of a token stands one like it, unless it is a word. -/
theorem cons (h : F.Beside m (t :: ts) us) (ht : F.token t.value = [t.value]) :
    ∃ u rest, us = u :: rest ∧ u.value = t.value ∧ F.Beside ts.length ts rest := by
  have hvalues := h.values
  rw [Tokens.values_cons, List.flatMap_cons, ht] at hvalues
  obtain ⟨u, rest, rfl, hu, hrest⟩ := List.map_eq_cons_iff.mp hvalues
  refine ⟨u, rest, rfl, hu, rfl, hrest, fun front behind hsplit =>
    h.uncounted (t.value :: front) behind ?_⟩
  rw [Tokens.values_cons, hsplit]
  rfl

/-- In place of some tokens stand some, and behind them those in place of the rest. -/
theorem append {front : Tokens} (h : F.Beside m (front ++ ts) us) :
    ∃ front' rest, us = front' ++ rest ∧ front'.values = front.values.flatMap F.token ∧
      F.Beside ts.length ts rest := by
  have hvalues := h.values
  rw [Tokens.values_append, List.flatMap_append] at hvalues
  obtain ⟨front', rest, rfl, hfront, hrest⟩ := List.map_eq_append_iff.mp hvalues
  refine ⟨front', rest, rfl, hfront, rfl, hrest, fun before behind hsplit =>
    h.uncounted (front.values ++ before) behind ?_⟩
  rw [Tokens.values_append, hsplit, List.append_assoc]

end Beside

theorem token_eq {t : Token} (h : ∀ text, t ≠ .word text) : F.token t = [t] := by
  cases t with
  | word text => exact absurd rfl (h text)
  | _ => rfl

theorem token_ne_nil (t : Token) : F.token t ≠ [] := by
  cases t with
  | word text => simp [Filling.token, F.words_ne_nil]
  | _ => exact List.cons_ne_nil _ _

/-- No tokens are lost. -/
theorem length_le_flatMap_token (vs : List Token) : vs.length ≤ (vs.flatMap F.token).length := by
  induction vs with
  | nil => exact Nat.le_refl 0
  | cons v vs ih =>
    have hpos := List.length_pos_iff.mpr (F.token_ne_nil v)
    rw [List.flatMap_cons, List.length_append, List.length_cons]
    omega

/-- In place of a word stand the words into which it falls. -/
theorem Beside.word {text : String} (h : F.Beside m (t :: ts) us) (ht : t.value = .word text) :
    ∃ first front rest, us = first :: (front ++ rest) ∧
      Tokens.values (first :: front) =
        (F.words text.toList).map (fun word => .word (String.ofList word)) ∧
      F.Beside ts.length ts rest := by
  have hrow : F.Beside m ([t] ++ ts) us := h
  obtain ⟨front, rest, rfl, hvalues, hrest⟩ := hrow.append
  have hwords : Tokens.values front =
      (F.words text.toList).map fun word => .word (String.ofList word) := by
    rw [hvalues, Tokens.values_cons, ht]
    exact List.append_nil _
  obtain ⟨word, words, heq⟩ := List.exists_cons_of_ne_nil (F.words_ne_nil text.toList)
  rw [heq] at hwords ⊢
  obtain ⟨first, front, rfl, -, -⟩ := List.map_eq_cons_iff.mp hwords
  exact ⟨first, front, rest, rfl, hwords, hrest⟩

/-- A token is read alike, if a word that falls into others has no meaning, nor has the first of the
others. -/
theorem Beside.satisfy {es : List Expectation} {meaning : Token → Option α}
    (hrows : F.Beside m ts us)
    (h : ∀ text, .word text ∈ ts.values.head? → F.words text.toList = [text.toList] ∨
      meaning (.word text) = none ∧
        ∀ word ∈ (F.words text.toList).head?, meaning (.word (String.ofList word)) = none) :
    AlikeAt F.Beside m ts us id (satisfy es meaning) (satisfy es meaning) := by
  have hsame {t u : Located Token} {ts us : Tokens} (hu : u.value = t.value)
      (hrest : F.Beside ts.length ts us) : AlikeAt F.Beside (ts.length + 1) (t :: ts) (u :: us) id
        (Parser.satisfy es meaning) (Parser.satisfy es meaning) := by
    rw [AlikeAt, result_satisfy_cons, result_satisfy_cons, hu]
    cases meaning t.value with
    | none => exact .inl ⟨rfl, rfl⟩
    | some a => exact .inr ⟨a, ts, us, rfl, rfl, .inr ⟨ts.length, Nat.lt_succ_self _, hrest,
        Nat.lt_succ_self _, Nat.lt_succ_self _⟩⟩
  obtain rfl := hrows.length
  cases ts with
  | nil =>
    rw [hrows.nil]
    exact .inl ⟨rfl, rfl⟩
  | cons t ts =>
    by_cases hword : ∃ text, t.value = .word text
    · obtain ⟨text, ht⟩ := hword
      obtain ⟨first, front, rest, rfl, hwords, hrest⟩ := hrows.word ht
      rcases h text (congrArg some ht) with hone | ⟨hnone, hfirst⟩
      · rw [hone, List.map_singleton, String.ofList_toList] at hwords
        obtain ⟨hvalue, hfront⟩ := List.cons.inj hwords
        obtain rfl : front = [] := List.map_eq_nil_iff.mp hfront
        exact hsame (hvalue.trans ht.symm) hrest
      · obtain ⟨word, words, heq⟩ := List.exists_cons_of_ne_nil (F.words_ne_nil text.toList)
        rw [heq] at hwords hfirst
        have hvalue : first.value = .word (String.ofList word) := (List.cons.inj hwords).1
        rw [AlikeAt, result_satisfy_cons, result_satisfy_cons, ht, hvalue, hnone, hfirst word rfl]
        exact .inl ⟨rfl, rfl⟩
    · obtain ⟨u, rest, rfl, hu, hrest⟩ := hrows.cons (token_eq fun text ht => hword ⟨text, ht⟩)
      exact hsame hu hrest

/-- A sign is read alike. -/
theorem alike_sign {es : List Expectation} {meaning : Token → Option α}
    (h : ∀ text, meaning (.word text) = none) (n : Nat) :
    Alike F.Beside n id (satisfy es meaning) (satisfy es meaning) :=
  fun _ _ _ _ hrows => hrows.satisfy fun text _ => .inr ⟨h text, fun _ _ => h _⟩

theorem alike_token {t : Token} (h : ∀ text, t ≠ .word text) (n : Nat) :
    Alike F.Beside n id (Parser.token t) (Parser.token t) :=
  alike_sign (fun text => if_neg (h text).symm) n

/-! ### Names in rows -/

/-- The words at the head of a row. -/
theorem exists_words (ts : Tokens) : ∃ (texts : List String) (front rest : Tokens),
    ts = front ++ rest ∧ front.values = texts.map .word ∧
      ∀ t ∈ rest.head?, ∀ text, t.value ≠ .word text := by
  induction ts with
  | nil => exact ⟨[], [], [], rfl, rfl, by simp⟩
  | cons t ts ih =>
    by_cases hword : ∃ text, t.value = .word text
    · obtain ⟨text, ht⟩ := hword
      obtain ⟨texts, front, rest, rfl, hfront, hrest⟩ := ih
      refine ⟨text :: texts, t :: front, rest, rfl, ?_, hrest⟩
      rw [Tokens.values_cons, ht, hfront]
      rfl
    · refine ⟨[], [], t :: ts, rfl, rfl, ?_⟩
      rintro _ ⟨⟩ text ht
      exact hword ⟨text, ht⟩

/-- All words in place of some words. -/
def allWords (F : Filling) (texts : List String) : List String :=
  texts.flatMap fun text => (F.words text.toList).map String.ofList

theorem flatMap_token_words (texts : List String) :
    (texts.map Token.word).flatMap F.token = (F.allWords texts).map .word := by
  induction texts with
  | nil => rfl
  | cons text texts ih =>
    rw [List.map_cons, List.flatMap_cons, ih, allWords, allWords, List.flatMap_cons,
      List.map_append, Filling.token, List.map_map]
    rfl

/-- Joined by spaces, the words are the old name with the noun in the hole. -/
theorem intercalate_allWords (text : String) (texts : List String) :
    " ".intercalate (F.allWords (text :: texts)) = F.name (" ".intercalate (text :: texts)) := by
  have hspace : F.fill [' '] = [' '] := fill_mark rfl []
  have hflat (texts : List String) : (F.allWords texts).map String.toList =
      (texts.map String.toList).flatMap F.words := by
    induction texts with
    | nil => rfl
    | cons text texts ih =>
      rw [allWords, List.flatMap_cons, List.map_append, ← allWords, ih, List.map_map, List.map_cons,
        List.flatMap_cons]
      congr 1
      exact (List.map_congr_left fun _ _ => String.toList_ofList).trans (List.map_id _)
  have hall (words : List (List Char)) (word : List Char) :
      [' '].intercalate ((word :: words).flatMap F.words) =
        F.fill ([' '].intercalate (word :: words)) := by
    induction words generalizing word with
    | nil => simp [intercalate_words]
    | cons next words ih =>
      have hne : (next :: words).flatMap F.words ≠ [] := by
        simp [List.flatMap_cons, F.words_ne_nil]
      rw [List.flatMap_cons, intercalate_append ' ' (F.words_ne_nil word) hne, ih next,
        intercalate_words, List.intercalate_cons_cons, fill_append, fill_append, hspace,
        List.append_assoc]
      rfl
  rw [String.ext_iff, name_toList, String.toList_intercalate, String.toList_intercalate, hflat]
  exact hall _ _

/-- A name goes on up to a token that is no word. -/
theorem follows_of_ne_word {ts : Tokens} (h : ∀ t ∈ ts.head?, ∀ text, t.value ≠ .word text) :
    Follows 4 ts.values := by
  cases ts with
  | nil => rintro u ⟨⟩
  | cons t ts =>
    rintro _ ⟨⟩
    have hword (u : Token) (hu : ∀ text, u ≠ .word text) : u.rank ≤ 4 := by
      cases u with
      | word text => exact absurd rfl (hu text)
      | _ => decide
    exact hword t.value (h t rfl)

/-- A name is read alike, up to the hole in it. -/
theorem alike_name (n : Nat) : Alike F.Beside n F.name Parser.name Parser.name := by
  intro m ts us _ hrows
  obtain ⟨texts, front, rest, rfl, hfront, hrest⟩ := exists_words ts
  obtain ⟨front', rest', rfl, hfront', hbeside⟩ := hrows.append
  rw [hfront, flatMap_token_words] at hfront'
  have hfollows := follows_of_ne_word hrest
  have hfollows' : Follows 4 rest'.values := by
    cases rest with
    | nil =>
      rw [hbeside.nil]
      rintro u ⟨⟩
    | cons t rest =>
      obtain ⟨u, more, rfl, hu, -⟩ := hbeside.cons (token_eq (hrest t rfl))
      rw [Tokens.values_cons] at hfollows ⊢
      rintro _ ⟨⟩
      exact hfollows _ (congrArg some hu.symm)
  cases texts with
  | nil =>
    have hrefuses : Parser.name.Refuses [] 4 := refuses_name fun _ => Nat.lt_succ_of_le
    exact .inl ⟨hrefuses front rest hfront hfollows, hrefuses front' rest' hfront' hfollows'⟩
  | cons text texts =>
    have hread := finds_name (.words text texts) front rest hfront hfollows
    have hne : F.allWords (text :: texts) ≠ [] := by
      simp [allWords, F.words_ne_nil]
    have hname := F.intercalate_allWords text texts
    obtain ⟨word, words, hwords⟩ := List.exists_cons_of_ne_nil hne
    rw [hwords] at hfront' hname
    have hread' := finds_name (.words word words) front' rest' hfront' hfollows'
    rw [hname] at hread'
    have hlength {front : Tokens} {word : String} {words : List String}
        (h : front.values = (word :: words).map .word) (rest : Tokens) :
        rest.length < (front ++ rest).length := by
      obtain ⟨t, front, rfl, -⟩ := List.map_eq_cons_iff.mp h
      rw [List.length_append, List.length_cons]
      omega
    exact .inr ⟨_, rest, rest', hread, hread', .inr ⟨rest.length,
      hrows.length ▸ hlength hfront rest, hbeside, hlength hfront rest, hlength hfront' rest'⟩⟩

/-- A numeral stays, and no word becomes one that does not count. -/
theorem Beside.numeral (hrows : F.Beside m ts us) (h : ¬ F.Counts ts.values) :
    AlikeAt F.Beside m ts us id Parser.numeral Parser.numeral := by
  refine hrows.satisfy fun text htext => ?_
  by_cases hhole : F.hole ∈ text.toList
  · refine .inr ⟨toWord?_hole hhole, fun word hword => ?_⟩
    dsimp only
    rw [String.toList_ofList]
    refine Classical.byContradiction fun hnumeral => h ?_
    obtain ⟨behind, hbehind⟩ := List.head?_eq_some_iff.mp htext
    rw [hbehind]
    exact ⟨hhole, word, hword, hnumeral⟩
  · exact .inl (words_of_notMem hhole)

/-- Behind `#` the same is read, since no word counts there. -/
theorem alike_numeric (n : Nat) :
    Alike F.Beside n (Primary.rename F.name) numeric numeric := by
  refine .numeric (P := fun ts => ¬ F.Counts (Tokens.values ts))
    (fun _ _ _ _ hrows => hrows.numeral) (fun t ts hts ht => ?_)
    (alike_token (fun _ => Token.noConfusion) n) (fun _ t ts us hrows ht => ?_)
    (alike_token (fun _ => Token.noConfusion) n) (alike_name n)
  · rwa [Tokens.values_cons, ht, Counts] at hts
  · refine hrows.uncounted [] (Tokens.values ts) ?_
    rw [Tokens.values_cons, ht]
    rfl

/-- Expressions are read alike, up to the hole in their names. -/
theorem lexical_beside : Lexical F.Beside F.name where
  length {m ts us} h := by
    have hle := F.length_le_flatMap_token ts.values
    rw [← h.values, Tokens.values, Tokens.values, List.length_map, List.length_map] at hle
    exact ⟨h.length.ge, h.length ▸ hle⟩
  token ht n := alike_token (by
    rintro text rfl
    simp at ht) n
  operator n := alike_sign (fun _ => rfl) n
  name := alike_name
  numeric := alike_numeric

end Filling

end Gamebook
