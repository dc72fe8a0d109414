import Gamebook.Proofs.Script.Breaks
import Gamebook.Proofs.Script.Lexemes
import Gamebook.Proofs.Script.Sides

/-!
# Integers as they are written

A value writes its integer behind a `#`, in decimal, with a minus sign in front of a negative one. A
script reads what is written as the same integer, except for the least one of the range
(`integer_literal`): there the sign is a token of its own, the numeral behind it is read first and
then negated, and the negative of the least integer is no integer of the range.
-/

namespace Gamebook.Script

open Text

/-! ### Tokens -/

/-- What a value writes for its integer. -/
def integerText (n : Int64) : List Char :=
  ({ integer := n } : Value).literalChars

/-- The tokens of a numeral behind a `#`, with its sign. -/
def numeralTokens (negative : Bool) (word : String) : List Token :=
  .hash :: (if negative then [.minus] else []) ++ [.word word]

/-- The digits of an integer, without its sign. -/
def digits (n : Int64) : List Char :=
  Decimal.ofNat n.toInt.natAbs

theorem integerText_eq (n : Int64) : integerText n =
    '#' :: ((if n.toInt < 0 then ['-'] else []) ++ digits n) := by
  have hwritten : integerText n = '#' :: Decimal.ofInt n.toInt := rfl
  rw [hwritten, digits]
  cases n.toInt with
  | ofNat k =>
    have hpos : ¬ Int.ofNat k < 0 := Int.not_lt.mpr (Int.natCast_nonneg k)
    rw [if_neg hpos]
    rfl
  | negSucc k =>
    rw [if_pos (Int.negSucc_lt_zero k)]
    rfl

theorem isDigit_of_mem_digits {n : Int64} {c : Char} (hc : c ∈ digits n) : c.isDigit = true :=
  Decimal.isDigit_of_mem_ofNat hc

theorem digits_ne_nil (n : Int64) : digits n ≠ [] :=
  Nat.toDigits_ne_nil

theorem not_mem_reserved_of_isDigit {c : Char} (hc : c.isDigit = true) : c ∉ reserved := by
  have hreserved : reserved.all (fun d => !d.isDigit) = true := by decide
  intro hmem
  have hnone := List.all_eq_true.mp hreserved c hmem
  rw [hc] at hnone
  cases hnone

theorem isWordChar_of_isDigit {c : Char} (hc : c.isDigit = true) : isWordChar c = true := by
  have hgap : isGap c = false := by
    refine Bool.eq_false_iff.mpr fun hgap => ?_
    have hcases : c = ' ' ∨ c = '\t' ∨ c = '\r' ∨ c = '\n' := by
      simpa [isGap, or_assoc] using hgap
    rcases hcases with rfl | rfl | rfl | rfl <;> cases hc
  rw [isWordChar, hgap, Bool.not_false, Bool.true_and, Bool.not_eq_true', ← Bool.not_eq_true]
  exact fun hcontains => not_mem_reserved_of_isDigit hc (List.contains_iff_mem.mp hcontains)

/-- Digits are read as one word. -/
theorem lexed_digits {cs : List Char} (hne : cs ≠ []) (hcs : ∀ c ∈ cs, c.isDigit = true) :
    lexed cs = [.token (.word (String.ofList cs))] := by
  have hword : wordLength cs = cs.length ∧ unescape cs = cs := by
    clear hne
    induction cs with
    | nil => exact ⟨rfl, rfl⟩
    | cons c cs ih =>
      have hc := isWordChar_of_isDigit (hcs c List.mem_cons_self)
      obtain ⟨hlength, hescape⟩ := ih fun d hd => hcs d (List.mem_cons_of_mem c hd)
      rw [wordLength_char hc, hlength, unescape_char (ne_escape_of_isWordChar hc), hescape]
      exact ⟨rfl, rfl⟩
  obtain ⟨c, raw, rfl⟩ := List.exists_cons_of_ne_nil hne
  have hc := hcs c List.mem_cons_self
  obtain ⟨hlength, hescape⟩ := hword
  have hfirst : Lexeme.ofText c (raw ++ []) =
      (.token (.word (String.ofList (unescape (c :: raw)))), raw.length) :=
    ofText_wordy (.inr (not_mem_reserved_of_isDigit hc)) (by rw [List.append_nil, hlength])
  rw [List.append_nil, hescape] at hfirst
  rw [lexed_lexeme (isGap_of_isWordChar (isWordChar_of_isDigit hc)), hfirst, List.drop_length,
    lexed, lexemes, lexemesFrom]
  rfl

theorem lexed_hash (rest : List Char) : lexed ('#' :: rest) = .token .hash :: lexed rest := by
  have hfirst : Lexeme.ofText '#' rest = (.token .hash, 0) := rfl
  rw [lexed_lexeme rfl, hfirst]
  rfl

theorem lexed_minus {c : Char} (hc : c ∉ reserved) (rest : List Char) :
    lexed ('-' :: c :: rest) = .token .minus :: lexed (c :: rest) := by
  have hequals : '=' ≠ c := fun heq => hc (heq ▸ by decide)
  have hfirst : Lexeme.ofText '-' (c :: rest) = (.token .minus, 0) := by
    simp [Lexeme.ofText, operators, hequals]
  rw [lexed_lexeme rfl, hfirst]
  rfl

/-- What is written for an integer is read as its sign and its digits. -/
theorem lexed_integerText (n : Int64) : lexed (integerText n) =
    (numeralTokens (n.toInt < 0) (String.ofList (digits n))).map .token := by
  have hdigits := lexed_digits (digits_ne_nil n) fun c hc => isDigit_of_mem_digits hc
  rw [integerText_eq, lexed_hash, numeralTokens]
  by_cases hn : n.toInt < 0
  · obtain ⟨c, cs, hcs⟩ := List.exists_cons_of_ne_nil (digits_ne_nil n)
    have hc : c.isDigit = true := isDigit_of_mem_digits (n := n) (hcs ▸ List.mem_cons_self)
    rw [if_pos hn, List.singleton_append, hcs, lexed_minus (not_mem_reserved_of_isDigit hc), ← hcs,
      hdigits]
    simp [hn]
  · rw [if_neg hn, List.nil_append, hdigits]
    simp [hn]

/-! ### Numerals -/

/-- The exact integer that a numeral stands for behind its sign. -/
def signed (negative : Bool) (i : Int) : Int :=
  if negative then -i else i

/-- The word of a numeral is the integer that it stands for. -/
theorem toInt_of_toWord? {cs : List Char} {n : Int64} (h : Decimal.toWord? cs = some n) :
    Decimal.toInt? cs = some n.toInt := by
  obtain ⟨i, hi, hn⟩ := Option.bind_eq_some_iff.mp h
  rw [Decimal.word?] at hn
  split at hn
  next hrange =>
    cases hn
    rw [Bool.and_eq_true, decide_eq_true_eq, decide_eq_true_eq, Decimal.minWord,
      Decimal.maxWord] at hrange
    rw [hi, Int64.toInt_ofInt_of_le (by omega) (by omega)]
  next => cases hn

/-- To negate a word is exact, but for the least one. -/
theorem toInt_negate (negative : Bool) (n : Int64) :
    (if negative then -n else n).toInt = signed negative n.toInt ↔
      ¬ (negative = true ∧ n.toInt = Decimal.minWord) := by
  cases negative with
  | false => simp [signed]
  | true =>
    have hmin := n.le_toInt
    have hmax := n.toInt_lt
    rw [if_pos rfl, signed, if_pos rfl, Int64.toInt_neg, Int.bmod_def, Decimal.minWord,
      and_iff_right rfl]
    split <;> omega

/-- What is written for the least integer stands for no word without its sign. -/
theorem toWord?_digits_least : Decimal.toWord? (digits Int64.minValue) = none := by
  decide +kernel

/-- What is written for any other integer stands for it. -/
theorem toWord?_digits {n : Int64} (hn : n ≠ Int64.minValue) :
    ∃ m, Decimal.toWord? (digits n) = some m ∧ n = if n.toInt < 0 then -m else m := by
  have hwritten (m : Int64) (hm : m.toInt = n.toInt.natAbs) :
      Decimal.toWord? (digits n) = some m := by
    rw [← Decimal.toWord?_ofWord m, Decimal.ofWord, hm]
    rfl
  by_cases hneg : n.toInt < 0
  · have hleast : n.toInt ≠ Decimal.minWord := fun heq => hn (Int64.toInt_inj.mp heq)
    have hexact : (-n).toInt = -n.toInt := (toInt_negate true n).mpr fun h => hleast h.2
    exact ⟨-n, hwritten (-n) (by omega), by rw [if_pos hneg, Int64.neg_neg]⟩
  · exact ⟨n, hwritten n (by omega), by rw [if_neg hneg]⟩

namespace Parser

variable {negative : Bool} {text : String} {ts : Tokens}

/-- A word and its sign, if it has one. -/
theorem result_sign (rest : Tokens)
    (h : ts.values = (if negative then [.minus] else []) ++ [.word text]) :
    ((do return ((← optional (token .minus)).isSome, ← word) : Parser (Bool × String))
      (ts ++ rest)).result = some ((negative, text), rest) := by
  cases negative with
  | true =>
    have hread : Finds (do return ((← optional (token .minus)).isSome, ← word) :
        Parser (Bool × String)) (true, text) [.minus, .word text] 5 :=
      .cons (Finds.token .minus 5).optional_some (Finds.word text 5).map
    exact hread ts rest h fun u _ => u.rank_le
  | false =>
    obtain ⟨t, ts', rfl, ht, hnil⟩ := List.map_eq_cons_iff.mp h
    rw [List.map_eq_nil_iff.mp hnil]
    exact result_unsigned text ht rest

/-- Behind a hash sign stands a numeral, or else a name. -/
theorem result_primary_hash (e : Parser Expr) {t : Located Token} (ht : t.value = .hash)
    (ts : Tokens) : (primary e (t :: ts)).result = (orElse (do return .integer (← signedNumeral))
      (do return .integerOf (← name)) ts).result := by
  have hnone {α : Type} {p : Parser α} (hp : p.Refuses [.hash] 5) : (p (t :: ts)).result = none :=
    hp [t] ts (congrArg (· :: []) ht) fun u _ => u.rank_le
  have hword : ∀ u, Begins [.hash] 5 u → u.rank < 5 := by
    rintro u rfl
    decide
  have hderef := hnone (refuses_deref (Begins.ne Token.noConfusion))
  have hothers : ((orElse verbCall <| orElse (group e) do return .atom (← name)) (t :: ts)).result =
      none :=
    hnone (.orElse (refuses_verbCall hword (Begins.ne Token.noConfusion))
      (.orElse (refuses_group (Begins.ne Token.noConfusion)) (refuses_name hword).bind_left))
  have hnumeric : (numeric (t :: ts)).result = (orElse (do return .integer (← signedNumeral))
      (do return .integerOf (← name)) ts).result := by
    rw [numeric, result_named]
    exact result_bind_some (result_satisfy_some (if_pos ht) ts)
  rw [primary, result_orElse_none hderef, result_orElse, hothers, Option.or_none, hnumeric]

/-- A numeral with its sign is read as the word it stands for, negated behind a minus sign. -/
theorem result_signed (rest : Tokens)
    (h : ts.values = (if negative then [.minus] else []) ++ [.word text]) :
    (signedNumeral (ts ++ rest)).result = (Decimal.toWord? text.toList).map fun n =>
      (if negative then -n else n, rest) :=
  result_signedNumeral (result_sign rest h)

/-- An integer is read of just those numerals that stand for a word. -/
theorem result_primary_integer_iff (e : Parser Expr) (h : ts.values = numeralTokens negative text)
    (rest : Tokens) {m : Int64} : (primary e (ts ++ rest)).result = some (.integer m, rest) ↔
      ∃ n, Decimal.toWord? text.toList = some n ∧ m = if negative then -n else n := by
  obtain ⟨t, ts, rfl, ht, hts⟩ := List.map_eq_cons_iff.mp h
  have hsigned := result_signed rest hts
  rw [List.cons_append, result_primary_hash e ht]
  cases hn : Decimal.toWord? text.toList with
  | some n =>
    rw [hn] at hsigned
    rw [result_orElse_some (result_bind_some hsigned)]
    simp [eq_comm]
  | none =>
    rw [hn] at hsigned
    rw [result_orElse_none (result_bind_none hsigned), result_bind]
    refine iff_of_false (fun hread => ?_) (by simp)
    obtain ⟨⟨noun, more⟩, -, hread⟩ := Option.bind_eq_some_iff.mp hread
    cases hread

/-- Behind a minus sign stands a numeral, and nothing else. -/
theorem refuses_primary_negative (e : Parser Expr) (h : Decimal.toWord? text.toList = none)
    (n : Nat) : (primary e).Refuses (numeralTokens true text) n := by
  intro ts rest hts _
  obtain ⟨t, ts, rfl, ht, hts⟩ := List.map_eq_cons_iff.mp hts
  have hsigned : (signedNumeral (ts ++ rest)).result =
      (Decimal.toWord? text.toList).map fun n => (-n, rest) :=
    result_signed rest (show Tokens.values ts = (if true then [.minus] else []) ++ _ from hts)
  have hname : name.Refuses [.minus, .word text] 5 := refuses_name (by rintro u rfl; decide)
  rw [h] at hsigned
  rw [List.cons_append, result_primary_hash e ht, result_orElse_none (result_bind_none hsigned)]
  exact result_bind_none (hname ts rest hts fun u _ => u.rank_le)

/-- A primary behind which nothing stands is an expression. -/
theorem refuses_expressionOfDepth_of_primary {us : List Token} {n : Nat}
    (h : ∀ e, (primary e).Refuses us n) (d : Nat) : (expressionOfDepth d).Refuses us n := by
  cases d with
  | zero => exact fun ts rest _ _ => rfl
  | succ d => exact (h (expressionOfDepth d)).bind_left.bind_left.bind_left

/-- What is written for the least integer is not read as an expression. -/
theorem result_expression_least
    (h : ts.values = numeralTokens true (String.ofList (digits Int64.minValue))) :
    (expression ts).result = none := by
  have hword : Decimal.toWord? (String.ofList (digits Int64.minValue)).toList = none := by
    rw [String.toList_ofList, toWord?_digits_least]
  have hnone := refuses_expressionOfDepth_of_primary
    (fun e => refuses_primary_negative e hword 5) (ts.length + 1) ts [] h (by simp [Follows])
  rwa [List.append_nil] at hnone

/-- What is written for any other integer spells it. -/
theorem spelledBy_integer {n : Int64} (hn : n ≠ Int64.minValue) :
    (Expr.ofPrimary (.integer n)).SpelledBy
      (numeralTokens (n.toInt < 0) (String.ofList (digits n))) := by
  obtain ⟨m, hm, heq⟩ := toWord?_digits hn
  rw [← String.toList_ofList (l := digits n)] at hm
  refine .term (.item (.primary ?_))
  by_cases hneg : n.toInt < 0
  · rw [if_pos hneg] at heq
    have hspelled := Primary.SpelledBy.negative hm
    rw [← heq] at hspelled
    simpa [numeralTokens, hneg] using hspelled
  · rw [if_neg hneg] at heq
    subst heq
    simpa [numeralTokens, hneg] using Primary.SpelledBy.integer hm

/-- What is written for an integer is read as one, but for the least. -/
theorem result_side_integer {n : Int64}
    (h : ts.values = numeralTokens (n.toInt < 0) (String.ofList (digits n))) :
    (optional expression ts).result = if n = Int64.minValue then some (none, ts) else
      some (some (.ofPrimary (.integer n)), []) := by
  split
  next hn =>
    subst hn
    exact result_optional_none (result_expression_least h)
  next hn =>
    have hside : SpelledOptional Expr.SpelledBy (some (.ofPrimary (.integer n))) ts.values :=
      h ▸ spelledBy_integer hn
    refine (finds_side hside ?_).result
    rintro e ⟨⟩
    trivial

end Parser

/-! ### Texts -/

theorem endsLexeme_integerText (n : Int64) : EndsLexeme (integerText n) := by
  rw [integerText_eq]
  exact ⟨by rintro c ⟨⟩; decide, by rintro c ⟨⟩; decide⟩

/-- Behind a text of tokens, what is written for an integer is read as its tokens. -/
theorem tokensOf_integerText {front : List Char} (h : unexpectedOf (lexemes front) = [])
    (n : Int64) : ∃ ts : Tokens,
      ts.values = numeralTokens (n.toInt < 0) (String.ofList (digits n)) ∧
      tokensOf (lexemes (front ++ integerText n)) = tokensOf (lexemes front) ++ ts ∧
      unexpectedOf (lexemes (front ++ integerText n)) = [] := by
  have hfront : .unexpected '\\' ∉ lexed front := by
    rw [lexed, map_value_eq_of_unexpectedOf h]
    simp
  have hbehind := lexed_integerText n
  rw [← map_value_lexemesFrom (0 + byteLength front)] at hbehind
  obtain ⟨hvalues, hnone⟩ := values_tokensOf hbehind
  rw [lexemes, lexemesFrom_append (endsLexeme_integerText n) 0 hfront]
  refine ⟨_, hvalues, List.filterMap_append, ?_⟩
  rw [unexpectedOf, List.filterMap_append]
  exact List.append_eq_nil_iff.mpr ⟨h, hnone⟩

namespace Parser

variable {γ δ : Type} {es : List Expectation} {meaning : Token → Option γ}
  {make : Option Expr → γ → Option Expr → δ} {bare : Expr → δ}

/-- A sentence that ends in its sign can be given any integer but the least. -/
theorem parseAll_integer (htells : Tells make bare) (hbars : ∀ {t c}, meaning t = some c → t.Bars)
    {front : List Char} {l : Option Expr} {c : γ}
    (h : parseAll (sentence make bare (satisfy es meaning)) front = .ok (make l c none))
    (n : Int64) : parseAll (sentence make bare (satisfy es meaning)) (front ++ integerText n) =
      .ok (make l c (some (.ofPrimary (.integer n)))) ↔ n ≠ Int64.minValue := by
  obtain ⟨hnone, rest, hread⟩ := parseAll_eq_ok_iff.mp h
  obtain ⟨ts, hts, htokens, hnone'⟩ := tokensOf_integerText hnone n
  have hside := result_side_integer hts
  rw [parseAll_eq_ok_iff, htokens, and_iff_right hnone']
  by_cases hn : n = Int64.minValue
  · rw [if_pos hn] at hside
    have hne : ts ≠ [] := by
      rintro rfl
      cases hts
    rw [result_sentence_append htells hbars hread hside, if_neg hne]
    simp [hn]
  · rw [if_neg hn] at hside
    rw [result_sentence_append htells hbars hread hside, if_pos rfl]
    simp [hn]

/-- Any integer but the least is a sentence by itself. -/
theorem parseAll_integer_bare (hbars : ∀ {t c}, meaning t = some c → t.Bars) (n : Int64) :
    parseAll (sentence make bare (satisfy es meaning)) (integerText n) =
      .ok (bare (.ofPrimary (.integer n))) ↔ n ≠ Int64.minValue := by
  have hnil : unexpectedOf (lexemes []) = [] ∧ tokensOf (lexemes []) = [] := by
    rw [lexemes, lexemesFrom]
    exact ⟨rfl, rfl⟩
  obtain ⟨ts, hts, htokens, hnone⟩ := tokensOf_integerText hnil.1 n
  rw [List.nil_append] at htokens hnone
  rw [hnil.2, List.nil_append] at htokens
  rw [parseAll_eq_ok_iff, htokens, and_iff_right hnone]
  by_cases hn : n = Int64.minValue
  · subst hn
    have hexpression := result_expression_least hts
    have hhash : meaning .hash = none := by
      refine Option.eq_none_iff_forall_ne_some.mpr fun c hc => ?_
      exact absurd (hbars hc).1 (by decide)
    have hhead : ∀ t ∈ ts.head?, t.value = .hash := by
      obtain ⟨t, ts, rfl, ht, -⟩ := List.map_eq_cons_iff.mp hts
      rintro u ⟨⟩
      exact ht
    have hsides : (sides make (satisfy es meaning) ts).result = none := by
      rw [sides, result_bind_some (result_optional_none hexpression)]
      exact result_bind_none (result_satisfy_none fun t ht => by rw [hhead t ht, hhash])
    have hnone : (sentence make bare (satisfy es meaning) ts).result = none := by
      rw [sentence]
      refine result_bind_none ?_
      rw [result_orElse_none hsides]
      exact result_bind_none hexpression
    rw [hnone]
    simp
  · have hspelled := spelledBy_integer hn
    rw [← hts] at hspelled
    have hfound := finds_expression hspelled trivial
    have hsides : (sides make (satisfy es meaning) ts).result = none :=
      result_sides_none make hfound rfl
    have hread : (sentence make bare (satisfy es meaning) ts).result =
        some (bare (.ofPrimary (.integer n)), []) := by
      refine result_endOfInput ?_
      rw [result_orElse_none hsides]
      exact result_bind_some hfound.result
    rw [hread]
    simp [hn]

end Parser

/-- The last character of what is written for an integer is a digit. -/
theorem getLast?_integerText (front : List Char) (n : Int64) :
    ∃ c, (front ++ integerText n).getLast? = some c ∧ c.isDigit = true := by
  have hne := digits_ne_nil n
  refine ⟨(digits n).getLast hne, ?_, isDigit_of_mem_digits (List.getLast_mem hne)⟩
  rw [integerText_eq, ← List.cons_append, ← List.append_assoc, List.getLast?_append,
    List.getLast?_eq_some_getLast hne, Option.some_or]

theorem isBlank_integerText (front : List Char) (n : Int64) :
    isBlank (front ++ integerText n) = false := by
  rw [integerText_eq]
  simp [isBlank, isSpace]

/-- Marks behind an integer are breaks. -/
theorem splitBreaks_integerText (front : List Char) (n : Int64) (breaks : Nat) :
    splitBreaks (front ++ integerText n ++ List.replicate breaks '<') =
      (front ++ integerText n, breaks) := by
  obtain ⟨c, hlast, hc⟩ := getLast?_integerText front n
  have hne {d : Char} (hd : d.isDigit = false) : (front ++ integerText n).getLast? ≠ some d := by
    rw [hlast]
    rintro ⟨⟩
    rw [hd] at hc
    cases hc
  rw [splitBreaks_append (hne rfl), if_neg]
  · exact fun h => hne rfl ((backslashes_pos_iff _).mp h.1)
  · intro d hd
    rw [List.getLast?_append, List.getLast?_replicate] at hd
    split at hd
    · rw [Option.none_or, hlast] at hd
      cases hd
      exact isSpace_of_isDigit hc
    · cases hd
      rfl

/-- **Integers are read as they are written, but for the least one.** As the right side of a
condition or an action, whatever its left side, and as a condition or an action by itself, what is
written for an integer is read as the integer, unless it is the least of the range. And where a
numeral behind a hash sign is read as an integer, that is the exact one that the numeral stands for
behind its sign, unless the least one is to be negated. -/
theorem integer_literal (n : Int64) (e : Parser Expr) (negative : Bool) (word : String)
    (ts rest : Tokens) (m : Int64) :
    let value := Expr.ofPrimary (.integer n)
    ((∀ front subject c, parseAll Parser.condition front = .ok (.compare subject c none) →
        (Condition.ofText (front ++ integerText n) = .ok (.compare subject c (some value)) ↔
          n ≠ Int64.minValue)) ∧
      (∀ front target c, parseAll Parser.action front = .ok (.change target c none) → ∀ breaks,
        (Instruction.ofText (front ++ integerText n ++ List.replicate breaks '<') =
          .ok ⟨some (.change target c (some value)), breaks⟩ ↔ n ≠ Int64.minValue)) ∧
      (Condition.ofText (integerText n) = .ok (.bare value) ↔ n ≠ Int64.minValue) ∧
      ∀ breaks, (Instruction.ofText (integerText n ++ List.replicate breaks '<') =
        .ok ⟨some (.bare value), breaks⟩ ↔ n ≠ Int64.minValue)) ∧
    (ts.values = numeralTokens negative word →
      (Parser.primary e (ts ++ rest)).result = some (.integer m, rest) →
      ∃ i, Decimal.toInt? word.toList = some i ∧
        (m.toInt = signed negative i ↔ ¬ (negative = true ∧ i = Decimal.minWord))) := by
  obtain ⟨meaning, hcondition, hbars⟩ := Parser.condition_eq
  obtain ⟨meaning', haction, hbars'⟩ := Parser.action_eq
  have hasked (front : List Char) : Condition.ofText (front ++ integerText n) =
      parseAll Parser.condition (front ++ integerText n) := by
    rw [Condition.ofText, isBlank_integerText, if_neg Bool.false_ne_true]
  have hdone (front : List Char) (breaks : Nat) (a : Action) :
      Instruction.ofText (front ++ integerText n ++ List.replicate breaks '<') =
        .ok ⟨some a, breaks⟩ ↔ parseAll Parser.action (front ++ integerText n) = .ok a := by
    rw [Instruction.ofText, splitBreaks_integerText]
    dsimp only
    rw [isBlank_integerText, if_neg Bool.false_ne_true]
    cases parseAll Parser.action (front ++ integerText n) with
    | ok b => simp [Except.map]
    | error es => simp [Except.map]
  refine ⟨⟨fun front subject c h => ?_, fun front target c h breaks => ?_, ?_,
    fun breaks => ?_⟩, fun hts hread => ?_⟩
  · rw [hcondition] at h
    rw [hasked, hcondition]
    exact Parser.parseAll_integer Parser.tells_condition hbars h n
  · rw [haction] at h
    rw [hdone, haction]
    exact Parser.parseAll_integer Parser.tells_action hbars' h n
  · rw [← List.nil_append (integerText n), hasked, List.nil_append, hcondition]
    exact Parser.parseAll_integer_bare hbars n
  · rw [← List.nil_append (integerText n), hdone, List.nil_append, haction]
    exact Parser.parseAll_integer_bare hbars' n
  · obtain ⟨k, hk, rfl⟩ := (Parser.result_primary_integer_iff e hts rest).mp hread
    exact ⟨k.toInt, toInt_of_toWord? hk, toInt_negate negative k⟩

/-- The integer next to the least one, behind an operation and the sign of a condition and of an
action, and a numeral with a sign of its own behind a minus sign. -/
theorem integer_literal_next :
    let n : Int64 := -9223372036854775807
    let front := "@score/#2=".toList
    let side : Expr :=
      .binary (.ofPrimary (.deref "score")) .intersect (.item (.primary (.integer 2)))
    let ts : Tokens := [⟨.hash, ⟨0, 1⟩⟩, ⟨.minus, ⟨1, 2⟩⟩, ⟨.word "+7", ⟨2, 5⟩⟩]
    parseAll Parser.condition front = .ok (.compare (some side) .contains none) ∧
      parseAll Parser.action front = .ok (.change (some side) .assign none) ∧
      Condition.ofText (front ++ integerText n) =
        .ok (.compare (some side) .contains (some (.ofPrimary (.integer n)))) ∧
      Instruction.ofText (front ++ integerText n ++ ['<', '<']) =
        .ok ⟨some (.change (some side) .assign (some (.ofPrimary (.integer n)))), 2⟩ ∧
      ts.values = numeralTokens true "+7" ∧
      (Parser.primary Parser.expression (ts ++ [])).result = some (.integer (-7), []) ∧
      ∃ i, Decimal.toInt? "+7".toList = some i ∧
        ((-7 : Int64).toInt = signed true i ↔ ¬ (true = true ∧ i = Decimal.minWord)) := by
  intro n front side ts
  have hcondition : parseAll Parser.condition front =
      .ok (.compare (some side) .contains none) := by decide +kernel
  have haction : parseAll Parser.action front = .ok (.change (some side) .assign none) := by
    decide +kernel
  have hn : n ≠ Int64.minValue := by decide
  have hread : (Parser.primary Parser.expression (ts ++ [])).result =
      some (.integer (-7), []) := by decide +kernel
  obtain ⟨⟨hasked, hdone, -, -⟩, htokens⟩ :=
    integer_literal n Parser.expression true "+7" ts [] (-7)
  exact ⟨hcondition, haction, (hasked front _ _ hcondition).mpr hn,
    (hdone front _ _ haction 2).mpr hn, rfl, hread, htokens rfl hread⟩

/-- What is written for the least integer is not read, though it is a numeral of the range, and the
numeral behind a minus sign is read as the least integer, though its negative is not. -/
theorem integer_literal_least :
    let n := Int64.minValue
    let side : Expr := .ofPrimary (.atom "x")
    let ts : Tokens := [⟨.hash, ⟨0, 1⟩⟩, ⟨.minus, ⟨1, 2⟩⟩, ⟨.word "-9223372036854775808", ⟨2, 23⟩⟩]
    parseAll Parser.condition "x=".toList = .ok (.compare (some side) .contains none) ∧
      integerText n = "#-9223372036854775808".toList ∧
      Decimal.toWord? "-9223372036854775808".toList = some n ∧
      Condition.ofText ("x=".toList ++ integerText n) ≠
        .ok (.compare (some side) .contains (some (.ofPrimary (.integer n)))) ∧
      (Parser.primary Parser.expression ts).result = some (.integer n, []) ∧
      n.toInt ≠ signed true Decimal.minWord := by
  decide +kernel

end Gamebook.Script
