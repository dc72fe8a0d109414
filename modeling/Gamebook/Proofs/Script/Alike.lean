import Gamebook.Proofs.Script.Completeness

/-!
# Two runs of the grammar

A row of tokens may be read beside another one that goes together with it: the same row with
something else behind it, or the row with other names in it. The two runs then do the same, step by
step. There is a rule for each combinator; and if the runs agree on single tokens and on names, they
agree on expressions, up to the names in them (`Lexical.expression`).

That an expression is followed to a depth that grows with the row makes no difference, since no row
nests deeper than it is long.
-/

namespace Gamebook.Script

/-! ### Other names -/

mutual

/-- A leaf with other names in it. -/
def Primary.rename (g : String → String) : Primary → Primary
  | .atom name => .atom (g name)
  | .integer n => .integer n
  | .integerOf noun => .integerOf (g noun)
  | .deref noun => .deref (g noun)
  | .verbCall noun verb => .verbCall (noun.map g) (g verb)
  | .group e => .group (e.rename g)

/-- An item with other names in it. -/
def Item.rename (g : String → String) : Item → Item
  | .primary p => .primary (p.rename g)
  | .invoke callee => .invoke (callee.rename g)
  | .apply callee arguments => .apply (callee.rename g) (arguments.rename g)

/-- A term with other names in it. -/
def Term.rename (g : String → String) : Term → Term
  | .item i => .item (i.rename g)
  | .join i rest => .join (i.rename g) (rest.rename g)

/-- An expression with other names in it. -/
def Expr.rename (g : String → String) : Expr → Expr
  | .term t => .term (t.rename g)
  | .binary left op right => .binary (left.rename g) op (right.rename g)

end

mutual

theorem Primary.rename_id : ∀ p : Primary, p.rename id = p
  | .atom _ => rfl
  | .integer _ => rfl
  | .integerOf _ => rfl
  | .deref _ => rfl
  | .verbCall _ _ => by rw [Primary.rename, Option.map_id]; rfl
  | .group e => congrArg Primary.group e.rename_id

theorem Item.rename_id : ∀ i : Item, i.rename id = i
  | .primary p => congrArg Item.primary p.rename_id
  | .invoke callee => congrArg Item.invoke callee.rename_id
  | .apply callee arguments => by rw [Item.rename, callee.rename_id, arguments.rename_id]

theorem Term.rename_id : ∀ t : Term, t.rename id = t
  | .item i => congrArg Term.item i.rename_id
  | .join i rest => by rw [Term.rename, i.rename_id, rest.rename_id]

theorem Expr.rename_id : ∀ e : Expr, e.rename id = e
  | .term t => congrArg Expr.term t.rename_id
  | .binary left _ right => by rw [Expr.rename, left.rename_id, right.rename_id]

end

variable {g : String → String}

/-- A term that is put together from items is renamed item by item. -/
theorem Term.rename_ofItems (first : Item) (more : List Item) :
    (ofItems first more).rename g = ofItems (first.rename g) (more.map (Item.rename g)) := by
  induction more generalizing first with
  | nil => rfl
  | cons next more ih => exact congrArg (Term.join _) (ih next)

/-- Terms between operators are renamed one by one, from the left. -/
theorem Expr.rename_ofTerms (first : Term) (more : List (Operator × Term)) :
    (ofTerms first more).rename g =
      ofTerms (first.rename g) (more.map fun (op, t) => (op, t.rename g)) := by
  have hfold (e : Expr) : (more.foldl (fun e (op, t) => .binary e op t) e).rename g =
      (more.map fun (op, t) => (op, t.rename g)).foldl (fun e (op, t) => .binary e op t)
        (e.rename g) := by
    induction more generalizing e with
    | nil => rfl
    | cons next more ih => exact ih (.binary e next.1 next.2)
  exact hfold (.term first)

namespace Parser

variable {α β γ δ : Type} {R : Nat → Tokens → Tokens → Prop} {n : Nat}

/-! ### Rows that go together -/

/-- What is left of two rows that go together: they are as they were, or some tokens less. -/
def Onward (R : Nat → Tokens → Tokens → Prop) (m : Nat) (ts us rest rest' : Tokens) : Prop :=
  (rest = ts ∧ rest' = us) ∨
    ∃ m' < m, R m' rest rest' ∧ rest.length < ts.length ∧ rest'.length < us.length

/-- What is left of what is left. -/
theorem Onward.behind {m m' : Nat} {ts us rest rest' more more' : Tokens} (hlt : m' < m)
    (hrows : R m' rest rest') (hlength : rest.length < ts.length)
    (hlength' : rest'.length < us.length) (h : Onward R m' rest rest' more more') :
    Onward R m ts us more more' := by
  rcases h with ⟨rfl, rfl⟩ | ⟨m'', hlt', hrows', hless, hless'⟩
  · exact .inr ⟨m', hlt, hrows, hlength, hlength'⟩
  · exact .inr ⟨m'', Nat.lt_trans hlt' hlt, hrows', Nat.lt_trans hless hlength,
      Nat.lt_trans hless' hlength'⟩

/-- Two parsers do the same of two rows: both fail, or `f` takes what the one reads to what the
other reads. -/
def AlikeAt (R : Nat → Tokens → Tokens → Prop) (m : Nat) (ts us : Tokens) (f : α → β) (p : Parser α)
    (q : Parser β) : Prop :=
  ((p ts).result = none ∧ (q us).result = none) ∨
    ∃ a rest rest', (p ts).result = some (a, rest) ∧ (q us).result = some (f a, rest') ∧
      Onward R m ts us rest rest'

/-- Two parsers do the same of all rows that go together and have up to `n` tokens. -/
def Alike (R : Nat → Tokens → Tokens → Prop) (n : Nat) (f : α → β) (p : Parser α) (q : Parser β) :
    Prop :=
  ∀ m ts us, m ≤ n → R m ts us → AlikeAt R m ts us f p q

/-- A parser that does not read nothing. -/
def Consumes (p : Parser α) : Prop :=
  ∀ ts a rest, (p ts).result = some (a, rest) → rest.length < ts.length

/-- Whether the first token is read is told by its meaning alone. -/
theorem result_satisfy_cons {es : List Expectation} {meaning : Token → Option α} (t : Located Token)
    (ts : Tokens) :
    (satisfy es meaning (t :: ts)).result = (meaning t.value).map fun a => (a, ts) := by
  cases hmeaning : meaning t.value with
  | none => exact result_satisfy_none fun u hu => Option.some.inj hu ▸ hmeaning
  | some a => exact result_satisfy_some hmeaning ts

theorem Consumes.satisfy {es : List Expectation} {meaning : Token → Option α} :
    Consumes (Parser.satisfy es meaning) := by
  intro ts a rest h
  cases ts with
  | nil => cases h
  | cons t ts =>
    rw [result_satisfy_cons] at h
    obtain ⟨b, -, heq⟩ := Option.map_eq_some_iff.mp h
    rw [← (Prod.mk.inj heq).2]
    exact Nat.lt_succ_self _

/-- A parser that reads something and does not get further is not asked again. -/
theorem result_many_stuck {p : Parser α} {ts : Tokens} {a : α} {rest : Tokens}
    (h : (p ts).result = some (a, rest)) (hlength : ¬ rest.length < ts.length) :
    (many p ts).result = some ([], ts) := by
  rw [many]
  split
  next => rfl
  next hread =>
    rw [hread] at h
    cases h
    rw [if_neg hlength]

/-- A word that is a numeral. -/
def numeral : Parser Int64 :=
  satisfy [.word] fun
    | .word text => Decimal.toWord? text.toList
    | _ => none

/-- Where no sign and word can be read, no number can. -/
theorem result_signedNumeral_none {ts : Tokens}
    (h : ((do return ((← optional (token .minus)).isSome, ← word) : Parser (Bool × String))
      ts).result = none) : (signedNumeral ts).result = none := by
  rw [signedNumeral]
  dsimp only
  split
  next => rfl
  next hsome => cases hsome.symm.trans h

/-- A numeral is a word that is in range. -/
theorem result_numeral (ts : Tokens) : (numeral ts).result =
    (word ts).result.bind fun (text, rest) =>
      (Decimal.toWord? text.toList).map fun n => (n, rest) := by
  cases ts with
  | nil => rfl
  | cons t ts =>
    rw [numeral, word, result_satisfy_cons, result_satisfy_cons]
    cases t.value <;> rfl

/-- A signed numeral is a numeral behind a minus sign or none, but for what is reported. -/
theorem result_signedNumeral_eq (ts : Tokens) : (signedNumeral ts).result =
    ((do
      let sign ← optional (token .minus)
      let n ← numeral
      return if sign.isSome then -n else n : Parser Int64) ts).result := by
  cases hsign : (optional (token .minus) ts).result with
  | none =>
    rw [result_signedNumeral_none (result_bind_none hsign), result_bind_none hsign]
  | some r =>
    obtain ⟨sign, rest⟩ := r
    rw [result_bind_some hsign, result_bind, result_numeral]
    cases hword : (word rest).result with
    | none =>
      refine result_signedNumeral_none ?_
      rw [result_bind_some hsign]
      exact result_bind_none hword
    | some r =>
      obtain ⟨text, more⟩ := r
      have hparts : ((do return ((← optional (token .minus)).isSome, ← word) :
          Parser (Bool × String)) ts).result = some ((sign.isSome, text), more) := by
        rw [result_bind_some hsign]
        exact result_bind_some hword
      rw [result_signedNumeral hparts, Option.bind_some]
      dsimp only
      cases Decimal.toWord? text.toList <;> rfl

namespace AlikeAt

variable {m : Nat} {ts us : Tokens} {f : α → β} {p p' : Parser α} {q q' : Parser β}

theorem pure (f : α → β) (a : α) : AlikeAt R m ts us f (Pure.pure a) (Pure.pure (f a)) :=
  .inr ⟨a, ts, us, rfl, rfl, .inl ⟨rfl, rfl⟩⟩

/-- What is read behind something is read of rows that go together. -/
theorem bind {k : α → Parser γ} {k' : β → Parser δ} {g : γ → δ} (hp : AlikeAt R m ts us f p q)
    (hrows : R m ts us) (hk : ∀ a m' rest rest', (p ts).result = some (a, rest) → R m' rest rest' →
      m' ≤ m → (m' < m ∨ rest = ts) → AlikeAt R m' rest rest' g (k a) (k' (f a))) :
    AlikeAt R m ts us g (p >>= k) (q >>= k') := by
  rcases hp with ⟨hnone, hnone'⟩ | ⟨a, rest, rest', hread, hread', honward⟩
  · exact .inl ⟨result_bind_none hnone, result_bind_none hnone'⟩
  rw [AlikeAt, result_bind_some hread, result_bind_some hread']
  rcases honward with ⟨rfl, rfl⟩ | ⟨m', hlt, hrows', hlength, hlength'⟩
  · exact hk a m _ _ hread hrows (Nat.le_refl m) (.inr rfl)
  · refine (hk a m' _ _ hread hrows' (Nat.le_of_lt hlt) (.inl hlt)).imp_right ?_
    rintro ⟨c, more, more', hread, hread', honward⟩
    exact ⟨c, more, more', hread, hread', honward.behind hlt hrows' hlength hlength'⟩

/-- If the first alternative fails on one side, it fails on the other side, too. -/
theorem orElse (hp : AlikeAt R m ts us f p q) (hp' : AlikeAt R m ts us f p' q') :
    AlikeAt R m ts us f (Parser.orElse p p') (Parser.orElse q q') := by
  rcases hp with ⟨hnone, hnone'⟩ | ⟨a, rest, rest', hread, hread', honward⟩
  · rwa [AlikeAt, result_orElse_none hnone, result_orElse_none hnone']
  · exact .inr ⟨a, rest, rest', result_orElse_some hread, result_orElse_some hread', honward⟩

end AlikeAt

namespace Alike

variable {f : α → β} {p p' : Parser α} {q q' : Parser β}

theorem pure (f : α → β) (a : α) : Alike R n f (Pure.pure a) (Pure.pure (f a)) :=
  fun _ _ _ _ _ => .pure f a

/-- Rows that go together are still so when something of them is read. -/
theorem bind {k : α → Parser γ} {k' : β → Parser δ} {g : γ → δ} (hp : Alike R n f p q)
    (hk : ∀ a, Alike R n g (k a) (k' (f a))) : Alike R n g (p >>= k) (q >>= k') :=
  fun m ts us hm hrows => (hp m ts us hm hrows).bind hrows fun a m' rest rest' _ hrows' hle _ =>
    hk a m' rest rest' (Nat.le_trans hle hm) hrows'

/-- Behind a token there are fewer tokens. -/
theorem bind_consumes {k : α → Parser γ} {k' : β → Parser δ} {g : γ → δ} (hp : Alike R n f p q)
    (hconsumes : p.Consumes) (hk : ∀ a, ∀ m < n, Alike R m g (k a) (k' (f a))) :
    Alike R n g (p >>= k) (q >>= k') := by
  refine fun m ts us hm hrows => (hp m ts us hm hrows).bind hrows
    fun a m' rest rest' hread hrows' _ hless => ?_
  rcases hless with hlt | rfl
  · exact hk a m' (Nat.lt_of_lt_of_le hlt hm) m' rest rest' (Nat.le_refl m') hrows'
  · exact absurd (hconsumes _ _ _ hread) (Nat.lt_irrefl _)

/-- Both alternatives are given the same two rows. -/
theorem orElse (hp : Alike R n f p q) (hp' : Alike R n f p' q') :
    Alike R n f (Parser.orElse p p') (Parser.orElse q q') :=
  fun m ts us hm hrows => (hp m ts us hm hrows).orElse (hp' m ts us hm hrows)

/-- What is expected counts in reports only. -/
theorem named (e : Expectation) (hp : Alike R n f p q) :
    Alike R n f (Parser.named e p) (Parser.named e q) :=
  hp

theorem optional (hp : Alike R n f p q) :
    Alike R n (Option.map f) (Parser.optional p) (Parser.optional q) :=
  (hp.bind fun a => pure (Option.map f) (some a)).orElse (pure (Option.map f) none)

/-- As often as one side reads something, so does the other one. The rows get shorter, so this comes
to an end. -/
theorem many (hp : Alike R n f p q) :
    Alike R n (List.map f) (Parser.many p) (Parser.many q) := by
  intro m ts us hm hrows
  induction m using Nat.strongRecOn generalizing ts us with
  | ind m ih =>
    rcases hp m ts us hm hrows with ⟨hnone, hnone'⟩ | ⟨a, rest, rest', hread, hread', honward⟩
    · exact .inr ⟨[], ts, us, result_many_none hnone, result_many_none hnone', .inl ⟨rfl, rfl⟩⟩
    rcases honward with ⟨rfl, rfl⟩ | ⟨m', hlt, hrows', hlength, hlength'⟩
    · exact .inr ⟨[], rest, rest', result_many_stuck hread (Nat.lt_irrefl _),
        result_many_stuck hread' (Nat.lt_irrefl _), .inl ⟨rfl, rfl⟩⟩
    rw [AlikeAt, result_many_some hread hlength, result_many_some hread' hlength']
    rcases ih m' hlt rest rest' (Nat.le_trans (Nat.le_of_lt hlt) hm) hrows' with
      ⟨hnone, hnone'⟩ | ⟨as, more, more', hmore, hmore', honward⟩
    · exact .inl ⟨by rw [hnone]; rfl, by rw [hnone']; rfl⟩
    · exact .inr ⟨a :: as, more, more', by rw [hmore]; rfl, by rw [hmore']; rfl,
        honward.behind hlt hrows' hlength hlength'⟩

end Alike

/-! ### The grammar -/

/-- What two runs of the grammar must agree on: tokens that are not part of a name, and names, up to
`g`. -/
structure Lexical (R : Nat → Tokens → Tokens → Prop) (g : String → String) : Prop where
  length : ∀ {m ts us}, R m ts us → m ≤ ts.length ∧ m ≤ us.length
  token : ∀ {t : Token}, t ∈ [.at, .colon, .openParen, .closeParen, .comma] → ∀ n,
    Alike R n id (token t) (token t)
  operator : ∀ n, Alike R n id operator operator
  name : ∀ n, Alike R n g name name
  numeric : ∀ n, Alike R n (Primary.rename g) numeric numeric

section

/-! Behind `#` a numeral may stand. The runs need to agree on numerals in such rows `P` only. -/

variable {P : Tokens → Prop}
  (hnumeral : ∀ m ts us, m ≤ n → R m ts us → P ts → AlikeAt R m ts us id numeral numeral)
  (hsign : ∀ t ts, P (t :: ts) → t.value = .minus → P ts)
include hnumeral hsign

/-- The runs agree on signed numerals, if they do on signs and numerals. -/
theorem AlikeAt.signedNumeral (hminus : Alike R n id (token .minus) (token .minus)) {m : Nat}
    {ts us : Tokens} (hm : m ≤ n) (hrows : R m ts us) (hts : P ts) :
    AlikeAt R m ts us id signedNumeral signedNumeral := by
  rw [AlikeAt, result_signedNumeral_eq, result_signedNumeral_eq]
  refine (hminus.optional m ts us hm hrows).bind hrows
    fun sign m' rest rest' hread hrows' hle _ => ?_
  have hrest : P rest := by
    obtain ⟨front, rfl, hfront⟩ := (Reads.token .minus).optional ts sign rest hread
    cases sign with
    | none => rwa [List.map_eq_nil_iff.mp hfront] at hts
    | some =>
      obtain ⟨t, rfl, ht⟩ := List.map_eq_singleton_iff.mp hfront
      exact hsign t rest hts ht
  rw [Option.map_id]
  exact (hnumeral m' rest rest' (Nat.le_trans hle hm) hrows' hrest).bind hrows'
    fun _ _ _ _ _ _ _ _ => .pure id _

/-- The runs agree behind `#`, if they do on names as well. -/
theorem Alike.numeric (hhash : Alike R n id (token .hash) (token .hash))
    (hbehind : ∀ m t ts us, R m (t :: ts) us → t.value = .hash → P ts)
    (hminus : Alike R n id (token .minus) (token .minus)) (hname : Alike R n g name name) :
    Alike R n (Primary.rename g) Parser.numeric Parser.numeric := by
  refine .named _ fun m ts us hm hrows => (hhash m ts us hm hrows).bind hrows
    fun _ m' rest rest' hread hrows' hle _ => ?_
  have hrest : P rest := by
    obtain ⟨front, rfl, hfront⟩ := Reads.token .hash ts () rest hread
    obtain ⟨t, rfl, ht⟩ := List.map_eq_singleton_iff.mp hfront
    exact hbehind m t rest us hrows ht
  have hle' := Nat.le_trans hle hm
  refine .orElse ?_ ?_
  · exact (AlikeAt.signedNumeral hnumeral hsign hminus hle' hrows' hrest).bind hrows'
      fun k _ _ _ _ _ _ _ => .pure _ (Primary.integer k)
  · exact (hname m' rest rest' hle' hrows').bind hrows'
      fun noun _ _ _ _ _ _ _ => .pure _ (Primary.integerOf noun)

end

namespace Lexical

variable {e e' : Parser Expr}

theorem deref (h : Lexical R g) (n : Nat) : Alike R n (Primary.rename g) deref deref :=
  .named _ ((h.token (by decide) n).bind fun _ => (h.name n).bind fun _ => .pure _ _)

theorem verbCall (h : Lexical R g) (n : Nat) :
    Alike R n (Primary.rename g) verbCall verbCall :=
  .named _ ((h.name n).optional.bind fun _ => (h.token (by decide) n).bind fun _ =>
    (h.name n).bind fun _ => .pure _ _)

/-- The parentheses take a token, so the parser inside needs to be alike for shorter rows only. -/
theorem group (h : Lexical R g) (he : ∀ m < n, Alike R m (Expr.rename g) e e') :
    Alike R n (Primary.rename g) (group e) (group e') :=
  (h.token (by decide) n).bind_consumes .satisfy fun _ m hm => (he m hm).bind fun _ =>
    (h.token (by decide) m).bind fun _ => .pure _ _

/-- A leaf is one of five, and the alternatives are tried in the same order. -/
theorem primary (h : Lexical R g) (he : ∀ m < n, Alike R m (Expr.rename g) e e') :
    Alike R n (Primary.rename g) (primary e) (primary e') :=
  (h.deref n).orElse ((h.numeric n).orElse ((h.verbCall n).orElse ((h.group he).orElse
    ((h.name n).bind fun _ => .pure _ _))))

/-- The parentheses of a call take a token like those of a group. -/
theorem item (h : Lexical R g) (he : ∀ m < n, Alike R m (Expr.rename g) e e') :
    Alike R n (Item.rename g) (item e) (item e') := by
  have harguments : Alike R n (Option.map (Expr.rename g)) (arguments e) (arguments e') :=
    .named _ ((h.token (by decide) n).bind_consumes .satisfy fun _ m hm =>
      (he m hm).optional.bind fun _ => (h.token (by decide) m).bind fun _ => .pure _ _)
  refine (h.primary he).bind fun p => harguments.optional.bind fun o => ?_
  match o with
  | none => exact .pure _ (Item.primary p)
  | some none => exact .pure _ (Item.invoke p)
  | some (some e) => exact .pure _ (Item.apply p e)

/-- The items of a term are renamed where they stand. -/
theorem term (h : Lexical R g) (he : ∀ m < n, Alike R m (Expr.rename g) e e') :
    Alike R n (Term.rename g) (term e) (term e') := by
  have hnext : Alike R n (Item.rename g) (do Parser.token .comma; Parser.item e)
      (do Parser.token .comma; Parser.item e') :=
    (h.token (by decide) n).bind fun _ => h.item he
  refine (h.item he).bind fun first => hnext.many.bind fun more => ?_
  rw [← Term.rename_ofItems]
  exact .pure _ _

/-- The terms between operators are renamed where they stand. -/
theorem terms (h : Lexical R g) (he : ∀ m < n, Alike R m (Expr.rename g) e e') :
    Alike R n (Expr.rename g) (terms e) (terms e') := by
  have hnext : Alike R n (fun (op, t) => (op, Term.rename g t))
      (do let op ← Parser.operator; return (op, ← Parser.term e))
      (do let op ← Parser.operator; return (op, ← Parser.term e')) :=
    (h.operator n).bind fun op => (h.term he).bind fun t => .pure _ (op, t)
  refine (h.term he).bind fun first => hnext.many.bind fun more => ?_
  rw [← Expr.rename_ofTerms]
  exact .pure _ _

/-- Depths may differ, as long as they are greater than the number of tokens. -/
theorem expressionOfDepth (h : Lexical R g) {d d' : Nat} (hd : n < d) (hd' : n < d') :
    Alike R n (Expr.rename g) (expressionOfDepth d) (expressionOfDepth d') := by
  induction n using Nat.strongRecOn generalizing d d' with
  | ind n ih =>
    match d, d', hd, hd' with
    | d + 1, d' + 1, hd, hd' => exact h.terms fun m hm => ih m hm (by omega) (by omega)

/-- The depth that an expression is followed to grows with its row. -/
theorem expression (h : Lexical R g) (n : Nat) :
    Alike R n (Expr.rename g) expression expression := by
  intro m ts us _ hrows
  obtain ⟨hlength, hlength'⟩ := h.length hrows
  exact h.expressionOfDepth (Nat.lt_succ_of_le hlength) (Nat.lt_succ_of_le hlength') m ts us
    (Nat.le_refl m) hrows

end Lexical

end Parser

end Gamebook.Script
