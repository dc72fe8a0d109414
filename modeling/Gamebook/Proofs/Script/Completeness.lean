import Gamebook.Proofs.Script.Spelling

/-!
# What is spelled is found

The other direction: a row of tokens that spells a condition or an action is read as just that
(`result_condition`, `result_action`). The parsers take as much as fits, and of several alternatives
the first that fits, so for each part of a tree one has to know what may follow it. Tokens have a
rank for this: a token ends every part of the grammar in which only tokens of higher rank go on.

One thing is spelled and not found: `#` and a noun whose first word is a numeral, since that word is
taken for the integer.
-/

namespace Gamebook.Script

/-! ### Leaves -/

mutual

/-- Whether all leaves of a primary have a property; a group is none. -/
def Primary.Leaves (P : Primary → Prop) : Primary → Prop
  | .group e => e.Leaves P
  | p => P p

/-- Whether all leaves of an item have a property. -/
def Item.Leaves (P : Primary → Prop) : Item → Prop
  | .primary p => p.Leaves P
  | .invoke callee => callee.Leaves P
  | .apply callee arguments => callee.Leaves P ∧ arguments.Leaves P

/-- Whether all leaves of a term have a property. -/
def Term.Leaves (P : Primary → Prop) : Term → Prop
  | .item i => i.Leaves P
  | .join i rest => i.Leaves P ∧ rest.Leaves P

/-- Whether all leaves of an expression have a property. -/
def Expr.Leaves (P : Primary → Prop) : Expr → Prop
  | .term t => t.Leaves P
  | .binary left _ right => left.Leaves P ∧ right.Leaves P

end

mutual

/-- What all primaries have, all leaves have. -/
theorem Primary.leaves_of_forall {P : Primary → Prop} (h : ∀ p, P p) : ∀ p : Primary, p.Leaves P
  | .group e => e.leaves_of_forall h
  | .atom _ | .integer _ | .integerOf _ | .deref _ | .verbCall _ _ => h _

theorem Item.leaves_of_forall {P : Primary → Prop} (h : ∀ p, P p) : ∀ i : Item, i.Leaves P
  | .primary p => p.leaves_of_forall h
  | .invoke callee => callee.leaves_of_forall h
  | .apply callee arguments => ⟨callee.leaves_of_forall h, arguments.leaves_of_forall h⟩

theorem Term.leaves_of_forall {P : Primary → Prop} (h : ∀ p, P p) : ∀ t : Term, t.Leaves P
  | .item i => i.leaves_of_forall h
  | .join i rest => ⟨i.leaves_of_forall h, rest.leaves_of_forall h⟩

theorem Expr.leaves_of_forall {P : Primary → Prop} (h : ∀ p, P p) : ∀ e : Expr, e.Leaves P
  | .term t => t.leaves_of_forall h
  | .binary left _ right => ⟨left.leaves_of_forall h, right.leaves_of_forall h⟩

end

/-- Whether all leaves of a condition have a property. -/
def Condition.Leaves (P : Primary → Prop) : Condition → Prop
  | .always => True
  | .compare subject _ value => (∀ e ∈ subject, e.Leaves P) ∧ ∀ e ∈ value, e.Leaves P
  | .bare e => e.Leaves P

/-- Whether all leaves of an action have a property. -/
def Action.Leaves (P : Primary → Prop) : Action → Prop
  | .change target _ value => (∀ e ∈ target, e.Leaves P) ∧ ∀ e ∈ value, e.Leaves P
  | .bare e => e.Leaves P

/-- The first word of a name. -/
def firstWord (name : String) : List Char :=
  name.toList.takeWhile (· != ' ')

/-- A noun behind `#` must not begin with a numeral. -/
def Primary.Unnumbered : Primary → Prop
  | .integerOf noun => Decimal.toWord? (firstWord noun) = none
  | _ => True

/-- A numeral is made of digits and signs. -/
theorem isDigit_of_toWord? {cs : List Char} {n : Int64} (h : Decimal.toWord? cs = some n) {c : Char}
    (hc : c ∈ cs) : c.isDigit = true ∨ c = '-' ∨ c = '+' := by
  have hdigits : ∀ {ds : List Char} {m : Nat}, Decimal.toNat? ds = some m →
      ∀ d ∈ ds, d.isDigit = true := by
    intro ds m hm
    rw [Decimal.toNat?] at hm
    split at hm
    next hall => exact List.all_eq_true.mp (Bool.and_eq_true_iff.mp hall).2
    next => cases hm
  obtain ⟨m, hm, -⟩ := Option.bind_eq_some_iff.mp h
  rw [Decimal.toInt?.eq_def] at hm
  split at hm
  all_goals
    obtain ⟨i, hi, -⟩ := Option.map_eq_some_iff.mp hm
    obtain ⟨k, hk, -⟩ := Option.bind_eq_some_iff.mp hi
  · exact (List.mem_cons.mp hc).elim (fun heq => .inr (.inl heq)) fun hc => .inl (hdigits hk c hc)
  · exact (List.mem_cons.mp hc).elim (fun heq => .inr (.inr heq)) fun hc => .inl (hdigits hk c hc)
  · exact .inl (hdigits hk c hc)

/-- A numeral has no spaces. -/
theorem not_mem_of_toWord? {cs : List Char} {n : Int64} (h : Decimal.toWord? cs = some n) :
    ' ' ∉ cs := fun hspace => by
  have hdigit := isDigit_of_toWord? h hspace
  simp at hdigit

/-- However a name is spelled: if its first word is no numeral, it is not spelled with a numeral in
front. -/
theorem toWord?_of_firstWord {first : String} {more : List String}
    (h : Decimal.toWord? (firstWord (" ".intercalate (first :: more))) = none) :
    Decimal.toWord? first.toList = none := by
  refine Option.eq_none_iff_forall_ne_some.mpr fun n hn => ?_
  have hspace := not_mem_of_toWord? hn
  have hall : ∀ c ∈ first.toList, (c != ' ') = true := fun c hc => by
    simpa using fun heq : c = ' ' => hspace (heq ▸ hc)
  have hfirst : firstWord (" ".intercalate (first :: more)) = first.toList := by
    rw [firstWord]
    cases more with
    | nil =>
      rw [String.intercalate_singleton, ← List.append_nil first.toList,
        List.takeWhile_append_of_pos hall]
      rfl
    | cons next more =>
      rw [String.intercalate_cons_cons, String.toList_append, String.toList_append,
        List.append_assoc, List.takeWhile_append_of_pos hall]
      simp
  rw [hfirst, hn] at h
  cases h

/-! ### What may follow -/

/-- How far inside of the grammar a token goes on: words in a name, `:` in a primary, parentheses in
an item, commas in a term, operators in an expression. The tokens from a parenthesis on are those
that a primary can begin with. -/
def Token.rank : Token → Nat
  | .word _ => 5
  | .at | .hash | .colon => 4
  | .openParen => 3
  | .comma => 2
  | .plus | .minus | .slash | .star => 1
  | _ => 0

/-- Whether a row begins with no token of a rank above `n`. -/
def Follows (n : Nat) (us : List Token) : Prop :=
  ∀ u ∈ us.head?, u.rank ≤ n

/-- Whether a token can stand at the head of a row that begins with `us`, where only tokens of ranks
up to `n` follow. -/
def Begins (us : List Token) (n : Nat) (u : Token) : Prop :=
  match us with
  | [] => u.rank ≤ n
  | v :: _ => u = v

/-- The head of a row is that of its first part, or one that may follow. -/
theorem Begins.of_head {us ws : List Token} {n : Nat} (hws : Follows n ws) {u : Token}
    (hu : u ∈ (us ++ ws).head?) : Begins us n u := by
  cases us with
  | nil => exact hws u hu
  | cons v us => exact (Option.some.inj hu).symm

/-- What a row begins with is known, unless it is empty. -/
theorem Begins.ne {v t : Token} (h : v ≠ t) {us : List Token} {n : Nat} :
    ∀ u, Begins (v :: us) n u → u ≠ t := by
  rintro u rfl
  exact h

/-- No token of a higher rank follows. -/
theorem Begins.ne_of_lt {t : Token} {n : Nat} (h : n < t.rank) : ∀ u, Begins [] n u → u ≠ t := by
  rintro u hu rfl
  exact Nat.not_le.mpr h hu

/-- Where one row of tokens stands behind another one, what may follow the latter is clear. -/
theorem Follows.of_begins {vs : List Token} {n k : Nat} (h : ∀ u, Begins vs n u → u.rank ≤ k)
    {ws : List Token} (hws : Follows n ws) : Follows k (vs ++ ws) :=
  fun u hu => h u (.of_head hws hu)

theorem Token.rank_le (u : Token) : u.rank ≤ 5 := by
  cases u <;> simp [rank]

namespace Parser

variable {α β : Type} {p q : Parser α} {a : α} {us vs : List Token} {n k : Nat}

/-- Whether a parser reads something off every row that begins with `us`, where only tokens of ranks
up to `n` follow. -/
def Finds (p : Parser α) (a : α) (us : List Token) (n : Nat) : Prop :=
  ∀ ts rest : Tokens, ts.values = us → Follows n rest.values →
    (p (ts ++ rest)).result = some (a, rest)

/-- Whether a parser reads nothing off any such row. -/
def Refuses (p : Parser α) (us : List Token) (n : Nat) : Prop :=
  ∀ ts rest : Tokens, ts.values = us → Follows n rest.values → (p (ts ++ rest)).result = none

/-- Where one row stands behind another one, the first is read, if it can stand in front of the
second. -/
theorem Finds.front (hp : p.Finds a us k) (h : ∀ u, Begins vs n u → u.rank ≤ k)
    {ts rest : Tokens} (hts : ts.values = us ++ vs) (hrest : Follows n rest.values) :
    ∃ front behind : Tokens, ts = front ++ behind ∧ front.values = us ∧ behind.values = vs ∧
      (p (ts ++ rest)).result = some (a, behind ++ rest) := by
  obtain ⟨front, behind, rfl, hfront, hbehind⟩ := List.map_eq_append_iff.mp hts
  have hfollows : Follows k (Tokens.values (behind ++ rest)) := by
    rw [Tokens.values_append, show Tokens.values behind = vs from hbehind]
    exact .of_begins h hrest
  refine ⟨front, behind, rfl, hfront, hbehind, ?_⟩
  rw [List.append_assoc]
  exact hp front _ hfront hfollows

namespace Refuses

theorem bind_left {f : α → Parser β} (hp : p.Refuses us n) : Refuses (p >>= f) us n :=
  fun ts rest hts hrest => result_bind_none (hp ts rest hts hrest)

/-- What the first parser reads is read, and the second one fails behind it. -/
theorem bind_right {f : α → Parser β} (hp : p.Finds a us k) (hf : (f a).Refuses vs n)
    (h : ∀ u, Begins vs n u → u.rank ≤ k) : Refuses (p >>= f) (us ++ vs) n := by
  intro ts rest hts hrest
  obtain ⟨-, behind, -, -, hbehind, hread⟩ := hp.front h hts hrest
  rw [result_bind_some hread]
  exact hf behind rest hbehind hrest

/-- No token that can stand at the head will do. -/
theorem satisfy {es : List Expectation} {meaning : Token → Option α}
    (h : ∀ u, Begins us n u → meaning u = none) : (Parser.satisfy es meaning).Refuses us n := by
  intro ts rest hts hrest
  refine result_satisfy_none fun t ht => h t.value (.of_head hrest ?_)
  rw [← hts, ← Tokens.values_append, Tokens.values, List.head?_map, ht]
  rfl

theorem token {t : Token} (h : ∀ u, Begins us n u → u ≠ t) : (Parser.token t).Refuses us n :=
  satisfy fun u hu => if_neg (h u hu)

/-- A name does not begin where no word can stand. -/
theorem word (h : ∀ u, Begins us n u → u.rank < 5) : Parser.word.Refuses us n := by
  refine satisfy fun u hu => ?_
  cases u with
  | word text => exact absurd (h _ hu) (Nat.lt_irrefl 5)
  | _ => rfl

/-- Both alternatives fail. -/
theorem orElse (hp : p.Refuses us n) (hq : q.Refuses us n) : (Parser.orElse p q).Refuses us n := by
  intro ts rest hts hrest
  rw [result_orElse_none (hp ts rest hts hrest)]
  exact hq ts rest hts hrest

theorem named (e : Expectation) (hp : p.Refuses us n) : (Parser.named e p).Refuses us n :=
  hp

end Refuses

namespace Finds

theorem pure (a : α) (n : Nat) : Finds (Pure.pure a) a [] n := by
  intro ts rest hts _
  rw [List.map_eq_nil_iff.mp hts]
  rfl

/-- One row behind another one; the first must be able to stand in front of the second. -/
theorem bind {f : α → Parser β} {b : β} (hp : p.Finds a us k) (hf : (f a).Finds b vs n)
    (h : ∀ u, Begins vs n u → u.rank ≤ k) : Finds (p >>= f) b (us ++ vs) n := by
  intro ts rest hts hrest
  obtain ⟨-, behind, -, -, hbehind, hread⟩ := hp.front h hts hrest
  rw [result_bind_some hread]
  exact hf behind rest hbehind hrest

/-- A token behind which anything may follow. -/
theorem cons {u : Token} {f : α → Parser β} {b : β} (hp : p.Finds a [u] 5)
    (hf : (f a).Finds b vs n) : Finds (p >>= f) b (u :: vs) n :=
  hp.bind hf fun v _ => v.rank_le

/-- Less may follow. -/
theorem mono {m : Nat} (hp : p.Finds a us n) (h : m ≤ n) : p.Finds a us m :=
  fun ts rest hts hrest => hp ts rest hts fun u hu => Nat.le_trans (hrest u hu) h

/-- What is made of what was read. -/
theorem map {f : α → β} (hp : p.Finds a us n) : Finds (p >>= fun a => Pure.pure (f a)) (f a) us n :=
  fun ts rest hts hrest => result_bind_some (hp ts rest hts hrest)

/-- A single token is read whatever follows. -/
theorem satisfy {es : List Expectation} {meaning : Token → Option α} {t : Token}
    (h : meaning t = some a) (n : Nat) : (Parser.satisfy es meaning).Finds a [t] n := by
  intro ts rest hts _
  obtain ⟨t', ts', rfl, rfl, hnil⟩ := List.map_eq_cons_iff.mp hts
  rw [List.map_eq_nil_iff.mp hnil]
  exact result_satisfy_some h rest

theorem token (t : Token) (n : Nat) : (Parser.token t).Finds () [t] n :=
  satisfy (if_pos rfl) n

theorem word (text : String) (n : Nat) : Parser.word.Finds text [.word text] n :=
  satisfy (by rfl) n

theorem named (e : Expectation) (hp : p.Finds a us n) : (Parser.named e p).Finds a us n :=
  hp

theorem orElse_left (hp : p.Finds a us n) : (Parser.orElse p q).Finds a us n :=
  fun ts rest hts hrest => result_orElse_some (hp ts rest hts hrest)

/-- The second alternative reads where the first one fails. -/
theorem orElse_right (hp : p.Refuses us n) (hq : q.Finds a us n) :
    (Parser.orElse p q).Finds a us n := by
  intro ts rest hts hrest
  rw [result_orElse_none (hp ts rest hts hrest)]
  exact hq ts rest hts hrest

theorem optional_some (hp : p.Finds a us n) : (Parser.optional p).Finds (some a) us n :=
  orElse_left hp.map

theorem optional_none (hp : p.Refuses [] n) : (Parser.optional p).Finds none [] n :=
  orElse_right hp.bind_left (pure none n)

theorem many_nil (hp : p.Refuses [] n) : (Parser.many p).Finds [] [] n := by
  intro ts rest hts hrest
  have hnone := hp ts rest hts hrest
  rw [List.map_eq_nil_iff.mp hts] at hnone ⊢
  exact result_many_none hnone

/-- One more is read in front, if it takes a token and can stand there. -/
theorem many_cons {as : List α} (hp : p.Finds a us k) (hne : us ≠ [])
    (hmore : (Parser.many p).Finds as vs n) (h : ∀ u, Begins vs n u → u.rank ≤ k) :
    (Parser.many p).Finds (a :: as) (us ++ vs) n := by
  intro ts rest hts hrest
  obtain ⟨front, behind, rfl, hfront, hbehind, hread⟩ := hp.front h hts hrest
  have hlength : (behind ++ rest).length < ((front ++ behind) ++ rest).length := by
    have hpos : front ≠ [] := fun hnil => hne (by rw [← hfront, hnil]; rfl)
    have hlength := List.length_pos_iff.mpr hpos
    simp only [List.length_append]
    omega
  rw [result_many_some hread hlength, hmore behind rest hbehind hrest]
  rfl

end Finds

/-! ### Names and numerals -/

/-- Words are taken as long as there are any. -/
theorem finds_words (words : List String) :
    (many word).Finds words (words.map Token.word) 4 := by
  induction words with
  | nil => exact .many_nil (.word fun u hu => Nat.lt_succ_of_le hu)
  | cons text words ih =>
    exact .many_cons (.word text 5) (List.cons_ne_nil _ _) ih fun u _ => u.rank_le

/-- A name goes on up to a token that is no word. -/
theorem finds_name {noun : String} (h : SpelledName noun us) : name.Finds noun us 4 := by
  obtain ⟨first, more⟩ := h
  exact .named _ (.cons (.word first 5) (finds_words more).map)

theorem refuses_name (h : ∀ u, Begins us n u → u.rank < 5) : name.Refuses us n :=
  .named _ (Refuses.word h).bind_left

/-- What a signed numeral comes to, by its sign and its word. -/
theorem result_signedNumeral {ts rest : Tokens} {negative : Bool} {text : String}
    (h : ((do return ((← optional (token .minus)).isSome, ← word) : Parser (Bool × String))
      ts).result = some ((negative, text), rest)) :
    (signedNumeral ts).result =
      (Decimal.toWord? text.toList).map fun n => (if negative then -n else n, rest) := by
  rw [signedNumeral]
  dsimp only
  split
  next hnone => cases hnone.symm.trans h
  next hsome =>
    cases hsome.symm.trans h
    cases Decimal.toWord? text.toList with
    | none => rfl
    | some n => rfl

/-- A word has no sign in front. -/
theorem result_unsigned (text : String) {t : Located Token} (ht : t.value = .word text)
    (rest : Tokens) :
    ((do return ((← optional (token .minus)).isSome, ← word) : Parser (Bool × String))
      (t :: rest)).result = some ((false, text), rest) := by
  have hsign : (optional (token .minus) (t :: rest)).result = some (none, t :: rest) := by
    refine result_optional_none (result_token_none ?_)
    rintro t' ⟨⟩
    rw [ht]
    exact Token.noConfusion
  have hword : (word (t :: rest)).result = some (text, rest) :=
    Finds.word text 5 [t] rest (congrArg (· :: []) ht) fun u _ => u.rank_le
  rw [result_bind_some hsign]
  exact result_bind_some hword

theorem finds_unsigned {text : String} {m : Int64} (h : Decimal.toWord? text.toList = some m)
    (n : Nat) : signedNumeral.Finds m [.word text] n := by
  intro ts rest hts _
  obtain ⟨t, ts', rfl, ht, hnil⟩ := List.map_eq_cons_iff.mp hts
  rw [List.map_eq_nil_iff.mp hnil, List.singleton_append,
    result_signedNumeral (result_unsigned text ht rest), h]
  rfl

/-- A sign in front makes a number negative. -/
theorem finds_negative {text : String} {m : Int64} (h : Decimal.toWord? text.toList = some m)
    (n : Nat) : signedNumeral.Finds (-m) [.minus, .word text] n := by
  have hread : Finds (do return ((← optional (token .minus)).isSome, ← word) :
      Parser (Bool × String)) (true, text) [.minus, .word text] n :=
    .cons (Finds.token .minus 5).optional_some (Finds.word text n).map
  intro ts rest hts hrest
  rw [result_signedNumeral (hread ts rest hts hrest), h]
  rfl

/-- A word that is no numeral is left to a name. -/
theorem refuses_signedNumeral {text : String} (h : Decimal.toWord? text.toList = none)
    (us : List Token) (n : Nat) : signedNumeral.Refuses (.word text :: us) n := by
  intro ts rest hts _
  obtain ⟨t, ts', rfl, ht, -⟩ := List.map_eq_cons_iff.mp hts
  rw [List.cons_append, result_signedNumeral (result_unsigned text ht _), h]
  rfl

/-! ### Primaries -/

theorem refuses_deref (h : ∀ u, Begins us n u → u ≠ .at) : deref.Refuses us n :=
  .named _ (Refuses.token h).bind_left

theorem refuses_numeric (h : ∀ u, Begins us n u → u ≠ .hash) : numeric.Refuses us n :=
  .named _ (Refuses.token h).bind_left

theorem refuses_group {e : Parser Expr} (h : ∀ u, Begins us n u → u ≠ .openParen) :
    (group e).Refuses us n :=
  (Refuses.token h).bind_left

/-- Without a name in front, a call begins with its colon. -/
theorem refuses_verbCall (hword : ∀ u, Begins us n u → u.rank < 5)
    (hcolon : ∀ u, Begins us n u → u ≠ .colon) : verbCall.Refuses us n := by
  intro ts rest hts hrest
  have hname := result_optional_none (refuses_name hword ts rest hts hrest)
  rw [verbCall, result_named, result_bind_some hname]
  exact (Refuses.token hcolon).bind_left ts rest hts hrest

/-- A name that no colon follows is no call. -/
theorem refuses_verbCall_name {noun : String} (h : SpelledName noun us) :
    verbCall.Refuses us 3 := by
  have hcall : verbCall.Refuses (us ++ []) 3 :=
    .named _ (.bind_right (finds_name h).optional_some
      (Refuses.token (Begins.ne_of_lt (by decide))).bind_left
      fun u hu => Nat.le_succ_of_le hu)
  rwa [List.append_nil] at hcall

/-- Nothing that a primary can begin with has a rank below three. -/
theorem refuses_primary (e : Parser Expr) : (primary e).Refuses [] 2 := by
  have hne : ∀ {t : Token}, 2 < t.rank → ∀ u, Begins [] 2 u → u ≠ t := Begins.ne_of_lt
  have hword : ∀ u, Begins [] 2 u → u.rank < 5 := fun u hu => Nat.lt_of_le_of_lt hu (by decide)
  exact .orElse (refuses_deref (hne (by decide))) (.orElse (refuses_numeric (hne (by decide)))
    (.orElse (refuses_verbCall hword (hne (by decide))) (.orElse (refuses_group (hne (by decide)))
      (refuses_name hword).bind_left)))

/-- A name is an atom where neither a colon nor another word follows. -/
theorem finds_atom (e : Parser Expr) {noun : String} (h : SpelledName noun us) :
    (primary e).Finds (.atom noun) us 3 := by
  have hname : Finds (do return .atom (← name)) (Primary.atom noun) us 3 :=
    (finds_name h).map.mono (by decide)
  have hcall := refuses_verbCall_name h
  obtain ⟨first, more⟩ := h
  exact .orElse_right (refuses_deref (Begins.ne Token.noConfusion)) (.orElse_right
    (refuses_numeric (Begins.ne Token.noConfusion)) (.orElse_right hcall (.orElse_right
      (refuses_group (Begins.ne Token.noConfusion)) hname)))

theorem finds_deref (e : Parser Expr) {noun : String} (h : SpelledName noun us) :
    (primary e).Finds (.deref noun) (.at :: us) 3 := by
  exact .orElse_left (.named _ (.cons (.token .at 5) ((finds_name h).map.mono (by decide))))

/-- What stands behind a hash sign. -/
theorem finds_numeric (e : Parser Expr) {x : Primary}
    (h : Finds (orElse (do return .integer (← signedNumeral)) (do return .integerOf (← name)))
      x us 3) : (primary e).Finds x (.hash :: us) 3 := by
  refine .orElse_right (refuses_deref (Begins.ne Token.noConfusion)) (.orElse_left
    (.named _ (.cons (.token .hash 5) h)))

theorem finds_integerOf (e : Parser Expr) {noun : String} (h : SpelledName noun us)
    (hnumber : Decimal.toWord? (firstWord noun) = none) :
    (primary e).Finds (.integerOf noun) (.hash :: us) 3 := by
  have hname : Finds (do return .integerOf (← name)) (Primary.integerOf noun) us 3 :=
    (finds_name h).map.mono (by decide)
  obtain ⟨first, more⟩ := h
  exact finds_numeric e (.orElse_right
    (refuses_signedNumeral (toWord?_of_firstWord hnumber) _ 3).bind_left hname)

/-- The name in front of the colon may be missing, and a call is tried before a lone name is. -/
theorem finds_verbCall (e : Parser Expr) {noun : Option String} {verb : String}
    (hnoun : SpelledOptional SpelledName noun us) (hverb : SpelledName verb vs) :
    (primary e).Finds (.verbCall noun verb) (us ++ .colon :: vs) 3 := by
  have hoptional : (optional name).Finds noun us 4 := by
    cases noun with
    | none =>
      rw [show us = [] from hnoun]
      exact .optional_none (refuses_name fun u hu => Nat.lt_succ_of_le hu)
    | some noun => exact (finds_name hnoun).optional_some
  have hhead : ∀ u, Begins (us ++ .colon :: vs) 3 u → u ≠ .at ∧ u ≠ .hash := by
    cases noun with
    | none =>
      rw [show us = [] from hnoun]
      rintro u rfl
      exact ⟨Token.noConfusion, Token.noConfusion⟩
    | some noun =>
      obtain ⟨first, more⟩ := hnoun
      rintro u rfl
      exact ⟨Token.noConfusion, Token.noConfusion⟩
  refine .orElse_right (refuses_deref fun u hu => (hhead u hu).1) (.orElse_right
    (refuses_numeric fun u hu => (hhead u hu).2) (.orElse_left (.named _ (.bind hoptional
      (.cons (.token .colon 5) ((finds_name hverb).map.mono (by decide))) ?_))))
  rintro u rfl
  decide

/-- An expression in parentheses. -/
theorem finds_group {e : Parser Expr} {x : Expr} (h : e.Finds x us 0) :
    (primary e).Finds (.group x) (.openParen :: us ++ [.closeParen]) 3 := by
  have hgroup : (group e).Finds (.group x) ([.openParen] ++ (us ++ [.closeParen])) 3 := by
    refine .bind (.token .openParen 5) (.bind h ?_ ?_) fun u _ => u.rank_le
    · exact (Finds.token .closeParen 3).map
    · rintro u rfl
      decide
  have hword : ∀ u, Begins (.openParen :: us ++ [.closeParen]) 3 u → u.rank < 5 := by
    rintro u rfl
    decide
  exact .orElse_right (refuses_deref (Begins.ne Token.noConfusion)) (.orElse_right
    (refuses_numeric (Begins.ne Token.noConfusion)) (.orElse_right
      (refuses_verbCall hword (Begins.ne Token.noConfusion)) (.orElse_left hgroup)))

/-! ### Items and terms -/

theorem refuses_item (e : Parser Expr) : (item e).Refuses [] 2 :=
  (refuses_primary e).bind_left

/-- What an item is made of, by the arguments behind its primary. -/
theorem finds_item {e : Parser Expr} {callee : Primary} {o : Option (Option Expr)} {i : Item}
    (hcallee : (primary e).Finds callee us 3) (ho : (optional (arguments e)).Finds o vs 2)
    (hvs : ∀ u, Begins vs 2 u → u.rank ≤ 3)
    (hi : Finds (match o with
      | none => pure (.primary callee)
      | some none => pure (.invoke callee)
      | some (some x) => pure (.apply callee x)) i [] 2) :
    (item e).Finds i (us ++ vs) 2 := by
  have hrest : Finds (optional (arguments e) >>= fun o => match o with
      | none => pure (.primary callee)
      | some none => pure (.invoke callee)
      | some (some x) => pure (.apply callee x)) i (vs ++ []) 2 := .bind ho hi fun u hu => hu
  rw [List.append_nil] at hrest
  exact .bind hcallee hrest hvs

theorem finds_arguments {e : Parser Expr} {o : Option Expr} (h : (optional e).Finds o us 0)
    (n : Nat) : (arguments e).Finds o (.openParen :: us ++ [.closeParen]) n := by
  have harguments : (arguments e).Finds o ([.openParen] ++ (us ++ [.closeParen])) n := by
    refine .named _ (.bind (.token .openParen 5) (.bind h (Finds.token .closeParen n).map ?_)
      fun u _ => u.rank_le)
    rintro u rfl
    decide
  exact harguments

/-- Behind a comma stands the next item. -/
theorem finds_next {e : Parser Expr} {i : Item} (h : (item e).Finds i us 2) :
    Finds (do token .comma; item e) i (.comma :: us) 2 :=
  .cons (.token .comma 5) h

theorem refuses_next (e : Parser Expr) : Refuses (do token .comma; item e) [] 1 :=
  (Refuses.token (Begins.ne_of_lt (by decide))).bind_left

/-- The items of a term make it up. -/
theorem ofItems_items (i : Item) (t : Term) : Term.ofItems i t.items = .join i t := by
  cases t with
  | item j => rfl
  | join j rest => exact congrArg (Term.join i) (ofItems_items j rest)

/-! ### Trees -/

/-- Behind an operator stands the next term. -/
theorem finds_operation {e : Parser Expr} (op : Operator) {t : Term}
    (h : (term e).Finds t us 1) :
    Finds (do let op ← operator; return (op, ← term e)) (op, t) (op.sign :: us) 1 := by
  have hoperator : operator.Finds op [op.sign] 5 := .satisfy (by cases op <;> rfl) 5
  exact .cons hoperator h.map

theorem refuses_operation (e : Parser Expr) :
    Refuses (do let op ← operator; return (op, ← term e)) [] 0 := by
  refine (Refuses.satisfy fun u hu => ?_).bind_left
  cases u <;> first | rfl | exact absurd hu (Nat.not_succ_le_zero _)

/-- No expression begins with a token that can stand behind one, or between arguments. -/
theorem refuses_expressionOfDepth (d : Nat) (h : n ≤ 2) : (expressionOfDepth d).Refuses [] n := by
  cases d with
  | zero => exact fun ts rest _ _ => rfl
  | succ d =>
    have hitem : (item (expressionOfDepth d)).Refuses [] n := fun ts rest hts hrest =>
      refuses_item _ ts rest hts fun u hu => Nat.le_trans (hrest u hu) h
    exact hitem.bind_left.bind_left

mutual

/-- A primary is found, whatever may be found in its parentheses. -/
theorem finds_primary : ∀ (p : Primary) {us : List Token} {d : Nat}, p.SpelledBy us →
    p.Leaves Primary.Unnumbered → us.length ≤ d → (primary (expressionOfDepth d)).Finds p us 3
  | .atom _, _, _, .atom h, _, _ => finds_atom _ h
  | .integer _, _, _, .integer h, _, _ =>
    finds_numeric _ (.orElse_left (finds_unsigned h 3).map)
  | _, _, _, .negative h, _, _ =>
    finds_numeric _ (.orElse_left (finds_negative h 3).map)
  | .integerOf _, _, _, .integerOf h, hnumber, _ => finds_integerOf _ h hnumber
  | .deref _, _, _, .deref h, _, _ => finds_deref _ h
  | .verbCall _ _, _, _, .verbCall hnoun hverb, _, _ => finds_verbCall _ hnoun hverb
  | .group e, _, d, @Primary.SpelledBy.group _ us h, hleaves, hlength => by
    have hshort : us.length < d := by
      simp only [List.length_append, List.length_cons, List.length_nil] at hlength
      omega
    exact finds_group (finds_expressionOfDepth e h hleaves hshort)

/-- An item is found. -/
theorem finds_callee : ∀ (i : Item) {us : List Token} {d : Nat}, i.SpelledBy us →
    i.Leaves Primary.Unnumbered → us.length ≤ d → (item (expressionOfDepth d)).Finds i us 2
  | .primary p, us, d, .primary h, hleaves, hlength => by
    have harguments : (arguments (expressionOfDepth d)).Refuses [] 2 :=
      .named _ (Refuses.token (Begins.ne_of_lt (by decide))).bind_left
    have hitem := finds_item (finds_primary p h hleaves hlength) (.optional_none harguments)
      (fun u hu => Nat.le_succ_of_le hu) (.pure (Item.primary p) 2)
    rwa [List.append_nil] at hitem
  | .invoke callee, _, d, @Item.SpelledBy.invoke _ us h, hleaves, hlength => by
    have hshort : us.length ≤ d := by
      simp only [List.length_append] at hlength
      omega
    have hnone : (optional (expressionOfDepth d)).Finds none [] 0 :=
      .optional_none (refuses_expressionOfDepth d (by decide))
    exact finds_item (finds_primary callee h hleaves hshort)
      (finds_arguments hnone 2).optional_some (by rintro u rfl; decide)
      (.pure (Item.invoke callee) 2)
  | .apply callee x, _, d, @Item.SpelledBy.apply _ _ us vs h hx, hleaves, hlength => by
    have hshort : us.length ≤ d ∧ vs.length < d := by
      simp only [List.length_append, List.length_cons, List.length_nil] at hlength
      omega
    have hsome := (finds_expressionOfDepth x hx hleaves.2 hshort.2).optional_some
    rw [List.append_assoc]
    exact finds_item (finds_primary callee h hleaves.1 hshort.1)
      (finds_arguments hsome 2).optional_some (by rintro u rfl; decide)
      (.pure (Item.apply callee x) 2)

/-- Behind a comma, all items of a term are found. -/
theorem finds_items : ∀ (t : Term) {us : List Token} {d : Nat}, t.SpelledBy us →
    t.Leaves Primary.Unnumbered → us.length ≤ d →
    (many (do token .comma; item (expressionOfDepth d))).Finds t.items (.comma :: us) 1
  | .item i, us, d, .item h, hleaves, hlength => by
    have hitems := Finds.many_cons (finds_next (finds_callee i h hleaves hlength))
      (List.cons_ne_nil _ _) (.many_nil (refuses_next _)) fun u hu => Nat.le_succ_of_le hu
    rwa [List.append_nil] at hitems
  | .join i rest, _, d, @Term.SpelledBy.join _ _ us vs h hrest, hleaves, hlength => by
    have hshort : us.length ≤ d ∧ vs.length ≤ d := by
      simp only [List.length_append, List.length_cons] at hlength
      omega
    exact .many_cons (finds_next (finds_callee i h hleaves.1 hshort.1)) (List.cons_ne_nil _ _)
      (finds_items rest hrest hleaves.2 hshort.2) (by rintro u rfl; decide)

/-- A term is found. -/
theorem finds_term : ∀ (t : Term) {us : List Token} {d : Nat}, t.SpelledBy us →
    t.Leaves Primary.Unnumbered → us.length ≤ d → (term (expressionOfDepth d)).Finds t us 1
  | .item i, us, d, .item h, hleaves, hlength => by
    have hterm : (term (expressionOfDepth d)).Finds (.item i) (us ++ []) 1 :=
      .bind (finds_callee i h hleaves hlength) (Finds.many_nil (refuses_next _)).map
        fun u hu => Nat.le_succ_of_le hu
    rwa [List.append_nil] at hterm
  | .join i rest, _, d, @Term.SpelledBy.join _ _ us vs h hrest, hleaves, hlength => by
    have hshort : us.length ≤ d ∧ vs.length ≤ d := by
      simp only [List.length_append, List.length_cons] at hlength
      omega
    rw [← ofItems_items]
    exact .bind (finds_callee i h hleaves.1 hshort.1)
      (finds_items rest hrest hleaves.2 hshort.2).map (by rintro u rfl; decide)

/-- An expression is found, with the operations behind it. -/
theorem finds_terms : ∀ (e : Expr) {us vs : List Token} {d : Nat}
    {more : List (Operator × Term)}, e.SpelledBy us → e.Leaves Primary.Unnumbered → us.length ≤ d →
    (many (do let op ← operator; return (op, ← term (expressionOfDepth d)))).Finds more vs 0 →
    (∀ u, Begins vs 0 u → u.rank ≤ 1) →
    (terms (expressionOfDepth d)).Finds (more.foldl (fun e (op, t) => .binary e op t) e)
      (us ++ vs) 0
  | .term t, _, _, _, _, .term h, hleaves, hlength, hmore, hvs =>
    .bind (finds_term t h hleaves hlength) hmore.map hvs
  | .binary left op right, _, vs, d, more, @Expr.SpelledBy.binary _ _ _ us ws h hright, hleaves,
      hlength, hmore, hvs => by
    have hshort : us.length ≤ d ∧ ws.length ≤ d := by
      simp only [List.length_append, List.length_cons] at hlength
      omega
    have hnext : (many (do let op ← operator; return (op, ← term (expressionOfDepth d)))).Finds
        ((op, right) :: more) (op.sign :: ws ++ vs) 0 :=
      .many_cons (finds_operation op (finds_term right hright hleaves.2 hshort.2))
        (List.cons_ne_nil _ _) hmore hvs
    rw [List.append_assoc]
    refine finds_terms left h hleaves.1 hshort.1 hnext ?_
    rintro u rfl
    cases op <;> decide

/-- An expression is found by parsers for which it is not nested too deep. -/
theorem finds_expressionOfDepth : ∀ (e : Expr) {us : List Token} {d : Nat}, e.SpelledBy us →
    e.Leaves Primary.Unnumbered → us.length < d → (expressionOfDepth d).Finds e us 0
  | e, us, d + 1, h, hleaves, hlength => by
    have hterms := finds_terms e h hleaves (Nat.le_of_lt_succ hlength)
      (.many_nil (refuses_operation _)) fun u hu => Nat.le_succ_of_le hu
    rwa [List.append_nil] at hterms

end

/-! ### Conditions and actions -/

/-- An expression is found. -/
theorem finds_expression {e : Expr} (h : e.SpelledBy us) (hleaves : e.Leaves Primary.Unnumbered) :
    expression.Finds e us 0 := by
  intro ts rest hts hrest
  have hlength : us.length < (ts ++ rest).length + 1 := by
    rw [← hts, Tokens.values, List.length_map, List.length_append]
    omega
  exact finds_expressionOfDepth e h hleaves hlength ts rest hts hrest

/-- One side of a sign, which may be missing. -/
theorem finds_side {o : Option Expr} (h : SpelledOptional Expr.SpelledBy o us)
    (hleaves : ∀ e ∈ o, e.Leaves Primary.Unnumbered) : (optional expression).Finds o us 0 := by
  cases o with
  | none =>
    rw [show us = [] from h]
    exact .optional_none fun ts rest => refuses_expressionOfDepth ((ts ++ rest).length + 1)
      (by decide) ts rest
  | some e => exact (finds_expression h (hleaves e rfl)).optional_some

section

variable {γ δ : Type} {sign : Parser γ} (make : Option Expr → γ → Option Expr → δ)

/-- Two sides with a sign between them. -/
theorem finds_sides {l r : Option Expr} {c : γ} {t : Token} (hsign : sign.Finds c [t] 5)
    (ht : t.rank ≤ 0) (hl : (optional expression).Finds l us 0)
    (hr : (optional expression).Finds r vs 0) :
    Finds (do
      let l ← optional expression
      let c ← sign
      return make l c (← optional expression)) (make l c r) (us ++ t :: vs) 0 := by
  refine .bind hl (.cons hsign hr.map) ?_
  rintro u rfl
  exact ht

/-- An expression by itself has no sign behind it. -/
theorem result_sides_none {e : Expr} {ts : Tokens} (he : expression.Finds e ts.values 0)
    (hsign : (sign []).result = none) :
    ((do
      let l ← optional expression
      let c ← sign
      return make l c (← optional expression) : Parser δ) ts).result = none := by
  have hleft := he.optional_some ts [] rfl (by simp [Follows])
  rw [List.append_nil] at hleft
  rw [result_bind_some hleft]
  exact result_bind_none hsign

end

/-- What is read up to the end. -/
theorem result_endOfInput {ts : Tokens} (h : (p ts).result = some (a, [])) :
    ((do let a ← p; endOfInput; return a : Parser α) ts).result = some (a, []) :=
  result_bind_some h

/-- What is found with nothing behind it. -/
theorem Finds.result {ts : Tokens} (h : p.Finds a ts.values n) : (p ts).result = some (a, []) := by
  have hread := h ts [] rfl (by simp [Follows])
  rwa [List.append_nil] at hread

/-- Each of its tokens stands for a comparison. -/
theorem finds_comparison {c : Comparison} {t : Token} (h : t ∈ c.signs) :
    comparison.Finds c [t] 5 ∧ t.rank ≤ 0 := by
  cases c
  case contains =>
    obtain rfl | rfl : t = .addAssign ∨ t = .assign := by simpa [Comparison.signs] using h
    · exact ⟨.satisfy (by rfl) 5, by decide⟩
    · exact ⟨.satisfy (by rfl) 5, by decide⟩
  all_goals
    obtain rfl := List.mem_singleton.mp h
    exact ⟨.satisfy (by rfl) 5, by decide⟩

theorem finds_assignment (c : Change) : assignment.Finds c [c.sign] 5 ∧ c.sign.rank ≤ 0 := by
  cases c
  all_goals exact ⟨.satisfy (by rfl) 5, by decide⟩

/-- A condition is read as what its tokens spell. -/
theorem result_condition {c : Condition} {ts : Tokens} (h : c.SpelledBy ts.values)
    (hleaves : c.Leaves Primary.Unnumbered) : (condition ts).result = some (c, []) := by
  refine result_endOfInput ?_
  generalize hvalues : ts.values = ws at h
  cases h with
  | compare hsubject hsign hvalue =>
    obtain ⟨hcomparison, hrank⟩ := finds_comparison hsign
    have hfound := finds_sides Condition.compare hcomparison hrank
      (finds_side hsubject hleaves.1) (finds_side hvalue hleaves.2)
    rw [← hvalues] at hfound
    exact result_orElse_some hfound.result
  | bare he =>
    have hfound := finds_expression he hleaves
    rw [← hvalues] at hfound
    exact (result_orElse_none (result_sides_none Condition.compare hfound rfl)).trans
      (result_bind_some hfound.result)

/-- An action is read as what its tokens spell. -/
theorem result_action {a : Action} {ts : Tokens} (h : a.SpelledBy ts.values)
    (hleaves : a.Leaves Primary.Unnumbered) : (action ts).result = some (a, []) := by
  refine result_endOfInput ?_
  generalize hvalues : ts.values = ws at h
  cases h with
  | @change _ _ c _ _ htarget hvalue =>
    obtain ⟨hassignment, hrank⟩ := finds_assignment c
    have hfound := finds_sides Action.change hassignment hrank
      (finds_side htarget hleaves.1) (finds_side hvalue hleaves.2)
    rw [← hvalues] at hfound
    exact result_orElse_some hfound.result
  | bare he =>
    have hfound := finds_expression he hleaves
    rw [← hvalues] at hfound
    exact (result_orElse_none (result_sides_none Action.change hfound rfl)).trans
      (result_bind_some hfound.result)

end Parser

end Gamebook.Script
