import Gamebook.Script.Grammar

/-!
# What parsers read

A parser answers with what it read and with a report; here only the former is looked at. There are
two ways to speak of it. An equation for each combinator says what is read of given tokens. The
predicate `Reads` goes the other way: it tells of all that a parser may have read that the tokens it
took are of a certain form. It has a rule for each combinator, so what a production of the grammar
takes is put together like the production itself.
-/

namespace Gamebook.Script

/-- The tokens of a row, without their places. -/
def Tokens.values (ts : Tokens) : List Token :=
  ts.map (·.value)

@[simp] theorem Tokens.values_nil : Tokens.values [] = [] := rfl

@[simp] theorem Tokens.values_cons (t : Located Token) (ts : Tokens) :
    Tokens.values (t :: ts) = t.value :: Tokens.values ts := rfl

@[simp] theorem Tokens.values_append (ts us : Tokens) :
    Tokens.values (ts ++ us) = Tokens.values ts ++ Tokens.values us := List.map_append

/-- What stands for something, or for nothing. -/
def SpelledOptional {α : Type} (P : α → List Token → Prop) : Option α → List Token → Prop
  | none, us => us = []
  | some a, us => P a us

/-- What stands for one thing after the other. -/
inductive SpelledRow {α : Type} (P : α → List Token → Prop) : List α → List Token → Prop
  /-- Nothing stands for nothing. -/
  | nil : SpelledRow P [] []
  /-- The first thing in front of the others. -/
  | cons {a : α} {as : List α} {us vs : List Token} :
      P a us → SpelledRow P as vs → SpelledRow P (a :: as) (us ++ vs)

namespace Parser

variable {α β : Type} {p q : Parser α} {ts : Tokens}

/-! ### Equations -/

@[simp] theorem result_pure (a : α) (ts : Tokens) :
    ((pure a : Parser α) ts).result = some (a, ts) := rfl

/-- What is read by one parser behind another one. -/
theorem result_bind (p : Parser α) (f : α → Parser β) (ts : Tokens) :
    ((p >>= f) ts).result = (p ts).result.bind fun r => (f r.1 r.2).result := by
  have hrun : (p >>= f) ts = Parser.bind p f ts := rfl
  rw [hrun, Parser.bind]
  split
  next hread => rw [hread, Option.bind_none]
  next hread => rw [hread, Option.bind_some]

/-- Behind a parser that read something, the next one goes on. -/
theorem result_bind_some {f : α → Parser β} {a : α} {rest : Tokens}
    (h : (p ts).result = some (a, rest)) : ((p >>= f) ts).result = (f a rest).result := by
  rw [result_bind, h, Option.bind_some]

/-- Behind a parser that failed, nothing is read. -/
theorem result_bind_none {f : α → Parser β} (h : (p ts).result = none) :
    ((p >>= f) ts).result = none := by
  rw [result_bind, h, Option.bind_none]

/-- The second alternative counts where the first one fails. -/
theorem result_orElse (p q : Parser α) (ts : Tokens) :
    (orElse p q ts).result = (p ts).result.or (q ts).result := by
  rw [orElse]
  split
  next hread => rw [hread, Option.some_or]
  next hread => rw [hread, Option.none_or]

/-- The first alternative that reads something counts. -/
theorem result_orElse_some {r : α × Tokens} (h : (p ts).result = some r) :
    (orElse p q ts).result = some r := by
  rw [result_orElse, h, Option.some_or]

/-- Where the first alternative reads nothing, the second one counts. -/
theorem result_orElse_none (h : (p ts).result = none) :
    (orElse p q ts).result = (q ts).result := by
  rw [result_orElse, h, Option.none_or]

@[simp] theorem result_named (e : Expectation) (p : Parser α) (ts : Tokens) :
    (named e p ts).result = (p ts).result := rfl

/-- What may be missing is read as missing only where it cannot be read. -/
theorem result_optional_none (h : (p ts).result = none) :
    (optional p ts).result = some (none, ts) :=
  result_orElse_none (result_bind_none h)

theorem result_satisfy_some {es : List Expectation} {meaning : Token → Option α}
    {t : Located Token} {a : α} (h : meaning t.value = some a) (ts : Tokens) :
    (satisfy es meaning (t :: ts)).result = some (a, ts) := by
  rw [satisfy]
  split
  next b hb =>
    rw [hb] at h
    cases h
    rfl
  next hnone => cases hnone.symm.trans h

/-- A token without a meaning is not read, and neither is the end. -/
theorem result_satisfy_none {es : List Expectation} {meaning : Token → Option α}
    (h : ∀ t ∈ ts.head?, meaning t.value = none) : (satisfy es meaning ts).result = none := by
  cases ts with
  | nil => rfl
  | cons t ts =>
    rw [satisfy]
    split
    next a ha => cases (h t rfl).symm.trans ha
    next => rfl

/-- Another token than the given one is not read. -/
theorem result_token_none {u : Token} (h : ∀ t ∈ ts.head?, t.value ≠ u) :
    (token u ts).result = none :=
  result_satisfy_none fun t ht => if_neg (h t ht)

/-- What cannot be read at all is repeated no times. -/
theorem result_many_none (h : (p ts).result = none) : (many p ts).result = some ([], ts) := by
  rw [many]
  split
  next => rfl
  next hread =>
    rw [hread] at h
    cases h

/-- Reading goes on behind what fits, as long as that takes some token. -/
theorem result_many_some {a : α} {rest : Tokens} (h : (p ts).result = some (a, rest))
    (hlength : rest.length < ts.length) :
    (many p ts).result = (many p rest).result.map fun r => (a :: r.1, r.2) := by
  rw [many]
  split
  next hread =>
    rw [hread] at h
    cases h
  next hread =>
    rw [hread] at h
    cases h
    rw [if_pos hlength]

/-! ### Forms of what is read -/

/-- Whether the tokens that a parser takes, and what it makes of them, are always of some form. -/
def Reads (p : Parser α) (P : α → List Token → Prop) : Prop :=
  ∀ ts a rest, (p ts).result = some (a, rest) → ∃ us, ts = us ++ rest ∧ P a us.values

namespace Reads

variable {P : α → List Token → Prop} {R : β → List Token → Prop}

theorem pure {a : α} (h : P a []) : Reads (Pure.pure a) P := by
  intro ts b rest hread
  cases hread
  exact ⟨[], rfl, h⟩

/-- What the second parser takes stands behind what the first one took. -/
theorem bind {f : α → Parser β} (hp : p.Reads P)
    (hf : ∀ a us, P a us → (f a).Reads fun b vs => R b (us ++ vs)) : Reads (p >>= f) R := by
  intro ts b rest hread
  rw [result_bind] at hread
  obtain ⟨⟨a, more⟩, hfirst, hsecond⟩ := Option.bind_eq_some_iff.mp hread
  obtain ⟨us, rfl, ha⟩ := hp ts a more hfirst
  obtain ⟨vs, rfl, hb⟩ := hf a us.values ha more b rest hsecond
  refine ⟨us ++ vs, (List.append_assoc ..).symm, ?_⟩
  rw [Tokens.values_append]
  exact hb

/-- More may be true of what is read than is told. -/
theorem mono {P' : α → List Token → Prop} (hp : p.Reads P) (h : ∀ a us, P a us → P' a us) :
    p.Reads P' := by
  intro ts a rest hread
  obtain ⟨us, hts, ha⟩ := hp ts a rest hread
  exact ⟨us, hts, h a _ ha⟩

/-- A single token is read, and its meaning is known. -/
theorem satisfy {es : List Expectation} {meaning : Token → Option α}
    (h : ∀ t a, meaning t = some a → P a [t]) : (Parser.satisfy es meaning).Reads P := by
  intro ts a rest hread
  match ts, hread with
  | [], hread => cases hread
  | t :: more, hread =>
    rw [Parser.satisfy] at hread
    split at hread
    next b hb =>
      cases hread
      exact ⟨[t], rfl, h t.value a hb⟩
    next => cases hread

theorem token (t : Token) : (Parser.token t).Reads fun _ us => us = [t] := by
  refine satisfy fun u _ hu => ?_
  split at hu
  next heq => rw [heq]
  next => cases hu

theorem word : Parser.word.Reads fun text us => us = [.word text] := by
  refine satisfy fun t text ht => ?_
  split at ht
  · cases ht
    rfl
  · cases ht

/-- Both alternatives have to read what is told. -/
theorem orElse (hp : p.Reads P) (hq : q.Reads P) : (Parser.orElse p q).Reads P := by
  intro ts a rest hread
  rw [result_orElse] at hread
  rcases Option.or_eq_some_iff.mp hread with hread | ⟨-, hread⟩
  · exact hp ts a rest hread
  · exact hq ts a rest hread

/-- What may be missing spells nothing, or what the parser reads. -/
theorem optional (hp : p.Reads P) : (Parser.optional p).Reads (SpelledOptional P) := by
  refine orElse (hp.bind fun a us ha => .pure ?_) (.pure rfl)
  rw [List.append_nil]
  exact ha

theorem named (e : Expectation) (hp : p.Reads P) : (Parser.named e p).Reads P :=
  hp

/-- A row is spelled by what the parser reads, round after round. -/
theorem many (hp : p.Reads P) : (Parser.many p).Reads (SpelledRow P) := by
  intro ts
  fun_induction Parser.many p ts with
  | case1 ts report hread =>
    intro as rest h
    cases h
    exact ⟨[], rfl, .nil⟩
  | case2 ts a more report hread hlt reply ih =>
    intro as rest h
    obtain ⟨us, rfl, ha⟩ := hp ts a more (by rw [hread])
    obtain ⟨⟨bs, rest'⟩, hreply, heq⟩ := Option.map_eq_some_iff.mp h
    cases heq
    obtain ⟨vs, rfl, hbs⟩ := ih bs rest hreply
    refine ⟨us ++ vs, (List.append_assoc ..).symm, ?_⟩
    rw [Tokens.values_append]
    exact .cons ha hbs
  | case3 ts a more report hread hge =>
    intro as rest h
    cases h
    exact ⟨[], rfl, .nil⟩

end Reads

end Parser

end Gamebook.Script
