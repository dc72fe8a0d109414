import Gamebook.Proofs.Script.Alike

/-!
# Two sides of a sign

No expression takes the sign of a comparison or of a change. So what is read in front of a sign does
not depend on what stands behind it (`result_side`), although an alternative may be tried, and
given up, for tokens far ahead, and although the depth up to which parentheses are followed grows
with the whole row. A condition or an action that ends in its sign can thus be given any right side
(`result_sentence_append`).
-/

namespace Gamebook.Script

/-- Whether no expression takes a token. -/
def Token.Bars (t : Token) : Prop :=
  t.rank = 0 ∧ t ≠ .closeParen

theorem Token.Bars.ne_of_rank {t u : Token} (h : t.Bars) (hu : 0 < u.rank) : t ≠ u := by
  rintro rfl
  exact absurd h.1 (Nat.ne_of_gt hu)

namespace Parser

variable {α : Type} {sign : Located Token} {more more' : Tokens} {n : Nat}

/-- A row in front of a sign goes together with itself, whatever stands behind the sign. -/
def InFront (sign : Located Token) (more more' : Tokens) (m : Nat) (ts us : Tokens) : Prop :=
  ∃ front : Tokens, front.length = m ∧ ts = front ++ sign :: more ∧ us = front ++ sign :: more'

/-- A sign without a meaning is not read, and behind any other token there are fewer tokens. -/
theorem alike_satisfy {es : List Expectation} {meaning : Token → Option α}
    (h : meaning sign.value = none) (n : Nat) :
    Alike (InFront sign more more') n id (satisfy es meaning) (satisfy es meaning) := by
  rintro m _ _ - ⟨front, rfl, rfl, rfl⟩
  cases front with
  | nil =>
    have hnone (more : Tokens) : (satisfy es meaning ([] ++ sign :: more)).result = none :=
      result_satisfy_none fun t ht => Option.some.inj ht ▸ h
    exact .inl ⟨hnone more, hnone more'⟩
  | cons t front =>
    cases hmeaning : meaning t.value with
    | none =>
      have hnone (more : Tokens) :
          (satisfy es meaning (t :: front ++ sign :: more)).result = none :=
        result_satisfy_none fun u hu => Option.some.inj hu ▸ hmeaning
      exact .inl ⟨hnone more, hnone more'⟩
    | some a =>
      refine .inr ⟨a, front ++ sign :: more, front ++ sign :: more',
        result_satisfy_some hmeaning _, result_satisfy_some hmeaning _, .inr ?_⟩
      exact ⟨front.length, Nat.lt_succ_self _, ⟨front, rfl, rfl, rfl⟩, Nat.lt_succ_self _,
        Nat.lt_succ_self _⟩

theorem alike_token {t : Token} (h : sign.value ≠ t) (n : Nat) :
    Alike (InFront sign more more') n id (token t) (token t) :=
  alike_satisfy (if_neg h) n

theorem alike_word (h : sign.value.Bars) (n : Nat) :
    Alike (InFront sign more more') n id word word := by
  refine alike_satisfy ?_ n
  split
  next text htext => exact absurd htext (h.ne_of_rank (Nat.succ_pos 4))
  next => rfl

theorem alike_name (h : sign.value.Bars) (n : Nat) :
    Alike (InFront sign more more') n id name name := by
  refine .named _ ((alike_word h n).bind fun first => (alike_word h n).many.bind fun more => ?_)
  rw [List.map_id]
  exact .pure id _

/-- What is read in front of a sign that no expression takes does not depend on what stands behind
the sign. -/
theorem lexical_inFront (h : sign.value.Bars) : Lexical (InFront sign more more') id where
  length := by
    rintro m _ _ ⟨front, rfl, rfl, rfl⟩
    simp only [List.length_append]
    omega
  token ht n := alike_token (by
    rintro rfl
    simp only [List.mem_cons, List.not_mem_nil, or_false] at ht
    rcases ht with heq | heq | heq | heq | heq
    · exact absurd heq (h.ne_of_rank (by decide))
    · exact absurd heq (h.ne_of_rank (by decide))
    · exact absurd heq (h.ne_of_rank (by decide))
    · exact h.2 heq
    · exact absurd heq (h.ne_of_rank (by decide))) n
  operator n := by
    refine alike_satisfy ?_ n
    split
    all_goals first | rfl | exact absurd ‹_› (h.ne_of_rank (by decide))
  name := alike_name h
  numeric n := by
    have hnumeral : Alike (InFront sign more more') n id numeral numeral := by
      refine alike_satisfy ?_ n
      split
      next text htext => exact absurd htext (h.ne_of_rank (Nat.succ_pos 4))
      next => rfl
    exact .numeric (P := fun _ => True) (fun m ts us hm hrows _ => hnumeral m ts us hm hrows)
      (fun _ _ _ _ => trivial) (alike_token (h.ne_of_rank (by decide)) n)
      (fun _ _ _ _ _ _ => trivial) (alike_token (h.ne_of_rank (by decide)) n) (alike_name h n)

/-- In front of a sign an expression is read, or none, whatever stands behind the sign. -/
theorem result_side {ts : Tokens} {o : Option Expr} (h : sign.value.Bars)
    (hread : (optional expression (ts ++ sign :: more)).result = some (o, sign :: more))
    (more' : Tokens) :
    (optional expression (ts ++ sign :: more')).result = some (o, sign :: more') := by
  have halike := ((@lexical_inFront sign more more' h).expression ts.length).optional
  rcases halike _ _ _ (Nat.le_refl _) ⟨ts, rfl, rfl, rfl⟩ with
    ⟨hnone, -⟩ | ⟨o', rest, rest', hread', hmore, honward⟩
  · rw [hread] at hnone
    cases hnone
  · rw [hread, Option.some_inj, Prod.mk.injEq] at hread'
    obtain ⟨rfl, hrest⟩ := hread'
    have hnames : Option.map (Expr.rename id) o = o := by
      cases o with
      | none => rfl
      | some e => rw [Option.map_some, e.rename_id]
    have hnil {front : Tokens} (heq : front ++ sign :: more = sign :: more) : front = [] := by
      have hlength := congrArg List.length heq
      rw [List.length_append] at hlength
      exact List.length_eq_zero_iff.mp (by omega)
    rw [hmore, hnames]
    rcases honward with ⟨hsame, rfl⟩ | ⟨m', -, ⟨front, -, hfront, rfl⟩, -⟩
    · rw [hnil (hsame.symm.trans hrest.symm)]
      rfl
    · rw [hnil (hfront.symm.trans hrest.symm)]
      rfl

/-! ### Both sides -/

section

variable {γ δ : Type} {es : List Expectation} {meaning : Token → Option γ}
  (make : Option Expr → γ → Option Expr → δ) (bare : Expr → δ)

/-- Two sides with a sign between them. -/
def sides (sign : Parser γ) : Parser δ := do
  let l ← optional expression
  let c ← sign
  return make l c (← optional expression)

/-- Two sides with a sign between them, or an expression by itself, and nothing else. -/
def sentence (sign : Parser γ) : Parser δ := do
  let x ← orElse (sides make sign) do
    return bare (← expression)
  endOfInput
  return x

/-- A condition is a sentence, and no expression takes the sign of a comparison. -/
theorem condition_eq : ∃ meaning,
    condition = sentence .compare .bare (satisfy [.comparison] meaning) ∧
      ∀ {t c}, meaning t = some c → t.Bars := by
  refine ⟨_, rfl, fun {t c} h => ?_⟩
  cases t <;> cases h <;> exact ⟨rfl, Token.noConfusion⟩

/-- An action is a sentence, and no expression takes the sign of a change. -/
theorem action_eq : ∃ meaning,
    action = sentence .change .bare (satisfy [.assignment] meaning) ∧
      ∀ {t c}, meaning t = some c → t.Bars := by
  refine ⟨_, rfl, fun {t c} h => ?_⟩
  cases t <;> cases h <;> exact ⟨rfl, Token.noConfusion⟩

variable {make bare}

/-- What is read as two sides is an expression or none, a sign, and again an expression or none. -/
theorem sides_cases {ts rest : Tokens} {x : δ}
    (h : (sides make (satisfy es meaning) ts).result = some (x, rest)) :
    ∃ front t behind l c r, ts = front ++ t :: behind ∧ meaning t.value = some c ∧
      x = make l c r ∧ (optional expression ts).result = some (l, t :: behind) ∧
      (optional expression behind).result = some (r, rest) := by
  rw [sides, result_bind, Option.bind_eq_some_iff] at h
  obtain ⟨⟨l, behind⟩, hl, h⟩ := h
  rw [result_bind, Option.bind_eq_some_iff] at h
  obtain ⟨⟨c, behind'⟩, hc, h⟩ := h
  rw [result_bind, Option.bind_eq_some_iff] at h
  obtain ⟨⟨r, rest'⟩, hr, h⟩ := h
  cases h
  obtain ⟨front, rfl, -⟩ := (reads_expression.optional) ts l behind hl
  cases behind with
  | nil => cases hc
  | cons t behind =>
    cases hmeaning : meaning t.value with
    | none =>
      dsimp only at hc
      rw [result_satisfy_none fun u hu => Option.some.inj hu ▸ hmeaning] at hc
      cases hc
    | some c' =>
      dsimp only at hc
      rw [result_satisfy_some hmeaning] at hc
      cases hc
      exact ⟨front, t, _, l, c, r, rfl, hmeaning, rfl, hl, hr⟩

/-- A sentence that ends in its sign can be told from all others. -/
structure Tells (make : Option Expr → γ → Option Expr → δ) (bare : Expr → δ) : Prop where
  inj : ∀ {l c r l' c' r'}, make l c r = make l' c' r' → l = l' ∧ c = c' ∧ r = r'
  ne_bare : ∀ {l c r e}, make l c r ≠ bare e

theorem eq_nil_of_endOfInput {ts rest : Tokens} (h : (endOfInput ts).result = some ((), rest)) :
    ts = [] := by
  cases ts with
  | nil => rfl
  | cons t ts => cases h

/-- What is not read is left. -/
theorem eq_of_optional_none {ts rest : Tokens}
    (h : (optional expression ts).result = some (none, rest)) : rest = ts := by
  obtain ⟨us, rfl, hus⟩ := (reads_expression.optional) ts none rest h
  rw [List.map_eq_nil_iff.mp hus]
  rfl

/-- A sentence without a right side ends in its sign. -/
theorem sentence_cases (htells : Tells make bare) {ts rest : Tokens} {l : Option Expr} {c : γ}
    (h : (sentence make bare (satisfy es meaning) ts).result = some (make l c none, rest)) :
    ∃ front t, ts = front ++ [t] ∧ meaning t.value = some c ∧
      (optional expression (front ++ [t])).result = some (l, [t]) := by
  rw [sentence, result_bind, Option.bind_eq_some_iff] at h
  obtain ⟨⟨x, more⟩, hx, h⟩ := h
  rw [result_bind, Option.bind_eq_some_iff] at h
  obtain ⟨⟨⟨⟩, more'⟩, hend, h⟩ := h
  obtain rfl := eq_nil_of_endOfInput hend
  cases h
  rw [result_orElse] at hx
  rcases Option.or_eq_some_iff.mp hx with hsides | ⟨-, hbare⟩
  · obtain ⟨front, t, behind, l', c', r', rfl, hmeaning, heq, hl, hr⟩ := sides_cases hsides
    obtain ⟨rfl, rfl, rfl⟩ := htells.inj heq
    obtain rfl := eq_of_optional_none hr
    exact ⟨front, t, rfl, hmeaning, hl⟩
  · rw [result_bind, Option.bind_eq_some_iff] at hbare
    obtain ⟨⟨e, more⟩, -, hbare⟩ := hbare
    exact absurd (congrArg Prod.fst (Option.some.inj hbare)).symm htells.ne_bare

theorem tells_condition : Tells Condition.compare Condition.bare where
  inj h := Condition.compare.inj h
  ne_bare := Condition.noConfusion

theorem tells_action : Tells Action.change Action.bare where
  inj h := Action.change.inj h
  ne_bare := Action.noConfusion

/-- Behind a sentence that ends in its sign stands its right side, and nothing else. -/
theorem result_sentence_append (htells : Tells make bare)
    (hbars : ∀ {t c}, meaning t = some c → t.Bars) {ts rest : Tokens} {l : Option Expr} {c : γ}
    (h : (sentence make bare (satisfy es meaning) ts).result = some (make l c none, rest))
    {more behind : Tokens} {r : Option Expr}
    (hmore : (optional expression more).result = some (r, behind)) :
    (sentence make bare (satisfy es meaning) (ts ++ more)).result =
      if behind = [] then some (make l c r, []) else none := by
  obtain ⟨front, t, rfl, hmeaning, hl⟩ := sentence_cases htells h
  have hsides : (sides make (satisfy es meaning) (front ++ [t] ++ more)).result =
      some (make l c r, behind) := by
    have hleft := result_side (hbars hmeaning) hl more
    rw [List.append_assoc, List.singleton_append, sides, result_bind_some hleft,
      result_bind_some (result_satisfy_some hmeaning more), result_bind_some hmore]
    rfl
  rw [sentence, result_bind_some (result_orElse_some hsides)]
  cases behind with
  | nil => rfl
  | cons u us => rfl

end

end Parser

end Gamebook.Script
