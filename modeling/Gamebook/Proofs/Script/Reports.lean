import Gamebook.Proofs.Script.Sides

/-!
# Where reports point

Whatever a parser reports, it reports of the tokens that it was given: the place of the complaint is
one of them, or the end, and the span of a numeral that is out of range is that of its word, with
the minus sign in front of it if there is one (`keeps_condition`, `keeps_action`). There is a rule
for each combinator, so the report of a production is put together like the production itself.
-/

namespace Gamebook.Script

/-- Whether a span is that of a numeral among some tokens: from its sign, if it has one, to the end
of its word. -/
def NumeralAt (ts : Tokens) (text : String) (span : Span) : Prop :=
  ∃ front word rest, word.value = .word text ∧ span.stop = word.span.stop ∧
    ((ts = front ++ word :: rest ∧ span.start = word.span.start) ∨
      ∃ minus, ts = front ++ minus :: word :: rest ∧ minus.value = .minus ∧
        span.start = minus.span.start)

/-- Whether a report is about some tokens. -/
def Report.Within (ts : Tokens) (r : Report) : Prop :=
  r.rest <:+ ts ∧ ∀ text span, r.complaint = .badInteger text span → NumeralAt ts text span

/-- A numeral among the tokens that are left is one among all of them. -/
theorem NumeralAt.of_suffix {ts us : Tokens} (h : ts <:+ us) {text : String} {span : Span}
    (hts : NumeralAt ts text span) : NumeralAt us text span := by
  obtain ⟨before, rfl⟩ := h
  obtain ⟨front, word, rest, hword, hstop, hplace⟩ := hts
  refine ⟨before ++ front, word, rest, hword, hstop, hplace.imp ?_ ?_⟩
  · rintro ⟨rfl, hstart⟩
    exact ⟨(List.append_assoc ..).symm, hstart⟩
  · rintro ⟨minus, rfl, hminus, hstart⟩
    exact ⟨minus, (List.append_assoc ..).symm, hminus, hstart⟩

namespace Report.Within

variable {ts us : Tokens} {a b : Report}

/-- What is reported of the tokens that are left is reported of all of them. -/
theorem of_suffix (h : ts <:+ us) (ha : a.Within ts) : a.Within us :=
  ⟨ha.1.trans h, fun text span hbad => (ha.2 text span hbad).of_suffix h⟩

/-- Something that was expected in front of the tokens that are left. -/
theorem expected {rest : Tokens} (h : rest <:+ ts) (es : List Expectation) :
    Report.Within ts ⟨rest, .expected es⟩ :=
  ⟨h, by simp⟩

/-- Of two complaints about a place, what is told of a numeral is told by one of them. -/
theorem merge (ha : a.Within ts) (hb : b.Within ts) : (a.merge b).Within ts := by
  rw [Report.merge]
  split
  · exact ha
  · split
    · exact hb
    · refine ⟨ha.1, fun text span hbad => ?_⟩
      cases hcomplaint : a.complaint with
      | badInteger text' span' =>
        rw [hcomplaint] at hbad
        exact ha.2 text span (hcomplaint.trans hbad)
      | expected es =>
        cases hcomplaint' : b.complaint with
        | badInteger text' span' =>
          rw [hcomplaint, hcomplaint'] at hbad
          exact hb.2 text span (hcomplaint'.trans hbad)
        | expected fs =>
          rw [hcomplaint, hcomplaint'] at hbad
          cases hbad

/-- Of two reports, the one that is further on stays, or both do as one. -/
theorem mergeReports {r s : Option Report} (hr : ∀ a ∈ r, a.Within ts) (hs : ∀ b ∈ s, b.Within ts) :
    ∀ c ∈ Script.mergeReports r s, c.Within ts := by
  cases r with
  | none => exact hs
  | some a =>
    cases s with
    | none => exact hr
    | some b =>
      rintro c ⟨rfl⟩
      exact (hr a rfl).merge (hs b rfl)

end Report.Within

namespace Parser

variable {α β : Type} {p q : Parser α}

/-- Whether a parser leaves and reports of nothing but the tokens that it was given. -/
def Keeps (p : Parser α) : Prop :=
  ∀ ts, (∀ a rest, (p ts).result = some (a, rest) → rest <:+ ts) ∧
    ∀ r ∈ (p ts).report, r.Within ts

namespace Keeps

theorem pure (a : α) : Keeps (Pure.pure a) := by
  refine fun ts => ⟨fun b rest h => ?_, fun r h => ?_⟩
  · cases h
    exact List.suffix_refl ts
  · cases h

/-- The second parser is given what the first one leaves, and both may have something to report. -/
theorem bind {f : α → Parser β} (hp : p.Keeps) (hf : ∀ a, (f a).Keeps) : Keeps (p >>= f) := by
  intro ts
  have hrun : (p >>= f) ts = Parser.bind p f ts := rfl
  obtain ⟨hrest, hreport⟩ := hp ts
  rw [hrun, Parser.bind]
  split
  next report hread =>
    rw [hread] at hreport
    exact ⟨by simp, hreport⟩
  next a rest report hread =>
    rw [hread] at hrest hreport
    have hsuffix := hrest a rest rfl
    obtain ⟨hrest', hreport'⟩ := hf a rest
    exact ⟨fun b more h => (hrest' b more h).trans hsuffix,
      .mergeReports hreport fun r hr => (hreport' r hr).of_suffix hsuffix⟩

/-- A token that does not fit is reported where it stands. -/
theorem satisfy (es : List Expectation) (meaning : Token → Option α) :
    (Parser.satisfy es meaning).Keeps := by
  intro ts
  match ts with
  | [] =>
    refine ⟨fun a rest h => ?_, ?_⟩
    · cases h
    · rintro r ⟨rfl⟩
      exact .expected (List.suffix_refl _) es
  | t :: ts =>
    rw [Parser.satisfy]
    split
    next a ha =>
      refine ⟨fun b rest h => ?_, by simp⟩
      cases h
      exact List.suffix_cons t ts
    next =>
      refine ⟨by simp, ?_⟩
      rintro r ⟨rfl⟩
      exact .expected (List.suffix_refl _) es

/-- A token that is left over is reported where it stands. -/
theorem endOfInput : Parser.endOfInput.Keeps := by
  intro ts
  rw [Parser.endOfInput]
  split
  · refine ⟨fun a rest h => ?_, by simp⟩
    cases h
    exact List.suffix_refl ts
  · refine ⟨by simp, ?_⟩
    rintro r ⟨rfl⟩
    exact .expected (List.suffix_refl _) _

/-- The second alternative is given the same tokens as the first one. -/
theorem orElse (hp : p.Keeps) (hq : q.Keeps) : (Parser.orElse p q).Keeps := by
  intro ts
  obtain ⟨hrest, hreport⟩ := hp ts
  obtain ⟨hrest', hreport'⟩ := hq ts
  rw [Parser.orElse]
  split
  next r report hread =>
    rw [hread] at hrest hreport
    exact ⟨hrest, hreport⟩
  next report hread =>
    rw [hread] at hreport
    exact ⟨hrest', .mergeReports hreport hreport'⟩

theorem optional (hp : p.Keeps) : (Parser.optional p).Keeps :=
  orElse (hp.bind fun _ => pure _) (pure none)

/-- A complaint about the very start is put as one about the whole, so it is not about a numeral. -/
theorem named (e : Expectation) (hp : p.Keeps) : (Parser.named e p).Keeps := by
  intro ts
  obtain ⟨hrest, hreport⟩ := hp ts
  refine ⟨hrest, fun r hr => ?_⟩
  obtain ⟨r', hr', rfl⟩ := Option.map_eq_some_iff.mp hr
  split
  · exact .expected (hreport r' hr').1 _
  · exact hreport r' hr'

/-- Each round of a repetition is given what the last one leaves. -/
theorem many (hp : p.Keeps) : (Parser.many p).Keeps := by
  intro ts
  fun_induction Parser.many p ts with
  | case1 ts report hread =>
    obtain ⟨-, hreport⟩ := hp ts
    rw [hread] at hreport
    refine ⟨fun as rest h => ?_, hreport⟩
    cases h
    exact List.suffix_refl ts
  | case2 ts a more report hread hlt reply ih =>
    obtain ⟨hrest, hreport⟩ := hp ts
    rw [hread] at hrest hreport
    have hsuffix := hrest a more rfl
    refine ⟨fun as rest h => ?_,
      .mergeReports hreport fun r hr => (ih.2 r hr).of_suffix hsuffix⟩
    obtain ⟨⟨bs, rest'⟩, hreply, heq⟩ := Option.map_eq_some_iff.mp h
    cases heq
    exact (ih.1 bs rest hreply).trans hsuffix
  | case3 ts a more report hread hge =>
    obtain ⟨-, hreport⟩ := hp ts
    rw [hread] at hreport
    refine ⟨fun as rest h => ?_, hreport⟩
    cases h
    exact List.suffix_refl ts

end Keeps

/-! ### The grammar -/

theorem keeps_name : name.Keeps :=
  .named _ (.bind (.satisfy _ _) fun _ => .bind (.many (.satisfy _ _)) fun _ => .pure _)

/-- A word behind a sign, or without one, is a numeral from the sign to the end of the word. -/
theorem numeralAt_sign {us rest : Tokens} {negative : Bool} {text : String}
    (h : us.values = if negative then [.minus, .word text] else [.word text]) :
    NumeralAt (us ++ rest) text
      ⟨(us.head?.map (·.span.start)).getD 0, (us.getLast?.map (·.span.stop)).getD 0⟩ := by
  rw [Tokens.values] at h
  cases negative with
  | false =>
    obtain ⟨word, rfl, hword⟩ := List.map_eq_singleton_iff.mp h
    exact ⟨[], word, rest, hword, rfl, .inl ⟨rfl, rfl⟩⟩
  | true =>
    obtain ⟨minus, vs, rfl, hminus, hvs⟩ := List.map_eq_cons_iff.mp h
    obtain ⟨word, rfl, hword⟩ := List.map_eq_singleton_iff.mp hvs
    exact ⟨[], word, rest, hword, rfl, .inr ⟨minus, rfl, hminus, rfl⟩⟩

/-- A numeral that is out of range is complained of with its sign. -/
theorem keeps_signedNumeral : signedNumeral.Keeps := by
  have hsign : Keeps (do return ((← optional (token .minus)).isSome, ← word) :
      Parser (Bool × String)) :=
    .bind (.optional (.satisfy _ _)) fun _ => .bind (.satisfy _ _) fun _ => .pure _
  intro ts
  obtain ⟨hrest, hreport⟩ := hsign ts
  rw [signedNumeral]
  dsimp only
  split
  next hread => exact ⟨by simp, hreport⟩
  next negative text rest hread =>
    split
    next n hn =>
      refine ⟨fun a rest' h => ?_, hreport⟩
      cases h
      exact hrest _ _ hread
    next =>
      refine ⟨by simp, .mergeReports hreport ?_⟩
      rintro r ⟨rfl⟩
      refine ⟨List.suffix_refl ts, fun text' span hbad => ?_⟩
      cases hbad
      obtain ⟨us, rfl, hus⟩ := reads_sign ts _ _ hread
      rw [List.length_append, Nat.add_sub_cancel, List.take_left]
      exact numeralAt_sign hus

/-- The parser for parentheses is a parameter, as in the grammar. -/
theorem keeps_primary {e : Parser Expr} (he : e.Keeps) : (primary e).Keeps := by
  have hderef : deref.Keeps := .named _ (.bind (.satisfy _ _) fun _ => .bind keeps_name fun _ =>
    .pure _)
  have hnumeric : numeric.Keeps := .named _ (.bind (.satisfy _ _) fun _ => .orElse
    (.bind keeps_signedNumeral fun _ => .pure _) (.bind keeps_name fun _ => .pure _))
  have hcall : verbCall.Keeps := .named _ (.bind (.optional keeps_name) fun _ =>
    .bind (.satisfy _ _) fun _ => .bind keeps_name fun _ => .pure _)
  have hgroup : (group e).Keeps := .bind (.satisfy _ _) fun _ => .bind he fun _ =>
    .bind (.satisfy _ _) fun _ => .pure _
  exact .orElse hderef (.orElse hnumeric (.orElse hcall (.orElse hgroup
    (.bind keeps_name fun _ => .pure _))))

/-- An item may have arguments in parentheses, which are expressions again. -/
theorem keeps_term {e : Parser Expr} (he : e.Keeps) : (term e).Keeps := by
  have harguments : (arguments e).Keeps := .named _ (.bind (.satisfy _ _) fun _ =>
    .bind (.optional he) fun _ => .bind (.satisfy _ _) fun _ => .pure _)
  have hitem : (item e).Keeps := by
    refine .bind (keeps_primary he) fun p => .bind (.optional harguments) fun o => ?_
    match o with
    | none => exact .pure _
    | some none => exact .pure _
    | some (some _) => exact .pure _
  exact .bind hitem fun _ => .bind (.many (.bind (.satisfy _ _) fun _ => hitem)) fun _ => .pure _

/-- Operators stand between terms, and are tokens themselves. -/
theorem keeps_terms {e : Parser Expr} (he : e.Keeps) : (terms e).Keeps :=
  .bind (keeps_term he) fun _ => .bind (.many (.bind (.satisfy _ _) fun _ =>
    .bind (keeps_term he) fun _ => .pure _)) fun _ => .pure _

/-- However deep groups may be nested, nothing else than the tokens is reported of. -/
theorem keeps_expressionOfDepth (depth : Nat) : (expressionOfDepth depth).Keeps := by
  induction depth with
  | zero => exact fun ts => ⟨by simp [expressionOfDepth], by simp [expressionOfDepth]⟩
  | succ depth ih => exact keeps_terms ih

/-- Expressions are parsed by depth, and each depth keeps to its tokens. -/
theorem keeps_expression : expression.Keeps :=
  fun ts => keeps_expressionOfDepth (ts.length + 1) ts

/-- Conditions and actions are made alike, of a sign between two expressions. -/
theorem keeps_sentence {γ δ : Type} {make : Option Expr → γ → Option Expr → δ} {bare : Expr → δ}
    {sign : Parser γ} (h : sign.Keeps) : (sentence make bare sign).Keeps := by
  have hsides : (sides make sign).Keeps := .bind (.optional keeps_expression) fun _ =>
    .bind h fun _ => .bind (.optional keeps_expression) fun _ => .pure _
  exact .bind (.orElse hsides (.bind keeps_expression fun _ => .pure _)) fun _ =>
    .bind .endOfInput fun _ => .pure _

theorem keeps_condition : condition.Keeps := by
  obtain ⟨meaning, hcondition, -⟩ := condition_eq
  rw [hcondition]
  exact keeps_sentence (.satisfy _ meaning)

theorem keeps_action : action.Keeps := by
  obtain ⟨meaning, haction, -⟩ := action_eq
  rw [haction]
  exact keeps_sentence (.satisfy _ meaning)

end Parser

end Gamebook.Script
