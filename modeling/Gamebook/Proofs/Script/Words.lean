import Gamebook.Proofs.Text.Feedless
import Gamebook.Script.Chain

/-!
# Words of scripts

A word of a script ends at white space, and a backslash takes no line break into it. Where no escape
stands for a line feed, a word therefore holds neither kind of line break (`unbroken_lexemes`). All
names in a script are made of its words, so the atoms that it spells are texts without line breaks:
`Chain.unbroken_ofText`.
-/

namespace Gamebook

namespace Script

open Text

/-! ### Atoms of scripts -/

mutual

/-- Whether the atoms that a primary spells have no line breaks. -/
def Primary.Unbroken : Primary → Prop
  | .atom name => Text.Unbroken name.toList
  | .integer _ => True
  | .integerOf _ => True
  | .deref _ => True
  | .verbCall _ _ => True
  | .group e => e.Unbroken

/-- Whether the atoms that an item spells have no line breaks. -/
def Item.Unbroken : Item → Prop
  | .primary p => p.Unbroken
  | .invoke callee => callee.Unbroken
  | .apply callee arguments => callee.Unbroken ∧ arguments.Unbroken

/-- Whether the atoms that a term spells have no line breaks. -/
def Term.Unbroken : Term → Prop
  | .item i => i.Unbroken
  | .join i rest => i.Unbroken ∧ rest.Unbroken

/-- Whether the atoms that an expression spells have no line breaks. -/
def Expr.Unbroken : Expr → Prop
  | .term t => t.Unbroken
  | .binary left _ right => left.Unbroken ∧ right.Unbroken

end

/-- Whether the atoms that a condition spells have no line breaks. -/
def Condition.Unbroken : Condition → Prop
  | .always => True
  | .compare s _ v => (∀ e ∈ s, e.Unbroken) ∧ ∀ e ∈ v, e.Unbroken
  | .bare e => e.Unbroken

/-- Whether the atoms that an action spells have no line breaks. -/
def Action.Unbroken : Action → Prop
  | .change target _ v => (∀ e ∈ target, e.Unbroken) ∧ ∀ e ∈ v, e.Unbroken
  | .bare e => e.Unbroken

/-- Whether the atoms that a segment spells have no line breaks. -/
def Segment.Unbroken : Segment → Prop
  | .condition c => c.Unbroken
  | .instruction i => ∀ a ∈ i.action, a.Unbroken
  | .invalid => True

/-- Whether the atoms that a chain spells have no line breaks. -/
def Chain.Unbroken (c : Chain) : Prop :=
  c.first.Unbroken ∧ ∀ s ∈ c.rest, s.2.Unbroken

/-! ### Lexemes -/

/-- The word at the head of a text goes on up to a place that is not escaped, and has no line breaks
in it. -/
theorem feedless_wordLength {cs : List Char} (h : Feedless cs) :
    Feedless (cs.drop (wordLength cs)) ∧ Unbroken (unescape (cs.take (wordLength cs))) := by
  have hnone : ∀ {cs : List Char}, Feedless cs →
      Feedless (cs.drop 0) ∧ Unbroken (unescape (cs.take 0)) := fun h =>
    ⟨h, by simp [Unbroken, unescape]⟩
  induction h with
  | nil => exact hnone .nil
  | lone => exact hnone .lone
  | @escape c cs hn hcs ih =>
    rw [wordLength]
    split
    next => exact hnone (.escape hn hcs)
    next hbreak =>
      refine ⟨ih.1, fun d hd => ?_⟩
      rw [List.take_succ_cons, List.take_succ_cons, unescape, escaped, if_neg hn] at hd
      rcases List.mem_cons.mp hd with rfl | hd
      · -- a word ends in front of an escaped line break
        simpa [and_comm] using hbreak
      · exact ih.2 d hd
  | @char c cs hc hcs ih =>
    have hlength : wordLength (c :: cs) = if isWordChar c then wordLength cs + 1 else 0 := by
      rw [wordLength]
      rintro _ _ rfl
      exact absurd rfl hc
    rw [hlength]
    split
    next hword =>
      refine ⟨ih.1, fun d hd => ?_⟩
      rw [List.take_succ_cons, unescape_char hc] at hd
      rcases List.mem_cons.mp hd with rfl | hd
      · constructor <;> rintro rfl <;> exact absurd hword (by decide)
      · exact ih.2 d hd
    next => exact hnone (.char hc hcs)

/-- An operator is spelled without backslashes, and is no word. -/
theorem operators_plain : ∀ e ∈ operators,
    e.1 ≠ [] ∧ (∀ c ∈ e.1, c ≠ '\\') ∧ ∀ text, e.2 ≠ .word text := by
  simp [operators]

/-- Where no word begins, the text goes on behind the character. -/
theorem feedless_of_wordLength {c : Char} {rest : List Char} (h : Feedless (c :: rest))
    (hlength : wordLength (c :: rest) = 0) : Feedless rest := by
  cases h with
  | lone => exact .nil
  | @escape d cs hn hcs =>
    rw [wordLength] at hlength
    split at hlength
    next hbreak =>
      refine .char ?_ hcs
      rintro rfl
      exact absurd hbreak (by decide)
    next => cases hlength
  | char _ hcs => exact hcs

/-- A lexeme ends at a place that is not escaped, and if it is a word, it has no line breaks. -/
theorem feedless_lexeme {c : Char} {rest : List Char} (h : Feedless (c :: rest)) :
    Feedless (rest.drop (Lexeme.ofText c rest).2) ∧
      ∀ text, (Lexeme.ofText c rest).1 = .token (.word text) → Unbroken text.toList := by
  rw [Lexeme.ofText]
  split
  next spelling t hfind =>
    -- an operator: the text goes on behind its spelling
    obtain ⟨hne, hplain, hword⟩ := operators_plain _ (List.mem_of_find?_eq_some hfind)
    have hprefix : spelling.isPrefixOf (c :: rest) = true := by simpa using List.find?_some hfind
    obtain ⟨more, hmore⟩ := List.isPrefixOf_iff_prefix.mp hprefix
    refine ⟨?_, fun text htext => absurd (Lexeme.token.inj htext) (hword text)⟩
    obtain ⟨s, spelling, rfl⟩ := List.exists_cons_of_ne_nil hne
    have hrest : rest.drop ((s :: spelling).length - 1) = more := by
      rw [← (List.cons.inj hmore).2]
      simp
    rw [← hmore] at h
    rw [hrest]
    exact h.behind hplain
  next =>
    split
    next hzero =>
      exact ⟨feedless_of_wordLength h hzero, by simp⟩
    next n hlength =>
      have hword := feedless_wordLength h
      rw [hlength] at hword
      refine ⟨hword.1, fun text htext => ?_⟩
      rw [← Token.word.inj (Lexeme.token.inj htext), String.toList_ofList]
      exact hword.2

/-- The words of a text have no line breaks. -/
theorem unbroken_lexemes {cs : List Char} (h : Feedless cs) (start : Nat) :
    ∀ l ∈ lexemesFrom start cs, ∀ text, l.value = .token (.word text) → Unbroken text.toList := by
  fun_induction lexemesFrom start cs with
  | case1 => simp
  | case2 start c rest hgap ih =>
    refine ih (h.tail ?_)
    rintro rfl
    exact absurd hgap (by decide)
  | case3 start c rest hgap lexeme more heq length ih =>
    have hlexeme := feedless_lexeme h
    rw [heq] at hlexeme
    intro l hl
    rcases List.mem_cons.mp hl with rfl | hl
    · exact hlexeme.2
    · exact ih hlexeme.1 l hl

/-! ### Parsers -/

/-- No word among some tokens has a line break. -/
def UnbrokenTokens (ts : Tokens) : Prop :=
  ∀ t ∈ ts, ∀ text, t.value = .word text → Unbroken text.toList

/-- What is kept of the lexemes are the tokens, so no word among them has a line break. -/
theorem unbroken_tokensOf {cs : List Char} (h : Feedless cs) :
    UnbrokenTokens (tokensOf (lexemes cs)) := by
  intro t ht text htext
  obtain ⟨l, hl, ht⟩ := List.mem_filterMap.mp ht
  split at ht
  next t' htoken =>
    cases ht
    exact unbroken_lexemes h 0 l hl text (htoken.trans (congrArg Lexeme.token htext))
  next => cases ht

namespace Parser

variable {α β : Type} {P : α → Prop} {R : β → Prop} {p q : Parser α}

/-- What a parser reads of words without line breaks is of a known kind, and such words are left. -/
def Yields (p : Parser α) (P : α → Prop) : Prop :=
  ∀ ts, UnbrokenTokens ts → ∀ a rest, (p ts).result = some (a, rest) → P a ∧ UnbrokenTokens rest

namespace Yields

theorem pure {a : α} (ha : P a) : Yields (Pure.pure a) P := by
  intro ts hts b rest h
  cases h
  exact ⟨ha, hts⟩

/-- What the second parser reads it reads of the tokens that the first one leaves. -/
theorem bind {f : α → Parser β} (hp : p.Yields P) (hf : ∀ a, P a → (f a).Yields R) :
    Yields (p >>= f) R := by
  intro ts hts b rest h
  have hrun : (p >>= f) ts = Parser.bind p f ts := rfl
  rw [hrun, Parser.bind] at h
  split at h
  next => cases h
  next a more report hread =>
    obtain ⟨ha, hmore⟩ := hp ts hts a more (by rw [hread])
    exact hf a ha more hmore b rest h

/-- A single token is read for its meaning, which may rest on what is known of a word. -/
theorem satisfy {es : List Expectation} {meaning : Token → Option α}
    (hmeaning : ∀ t a, meaning t = some a →
      (∀ text, t = .word text → Unbroken text.toList) → P a) :
    (Parser.satisfy es meaning).Yields P := by
  intro ts hts a rest h
  match ts, hts, h with
  | [], _, h => cases h
  | t :: more, hts, h =>
    rw [Parser.satisfy] at h
    split at h
    next b hb =>
      cases h
      exact ⟨hmeaning _ _ hb (hts t List.mem_cons_self), fun u hu =>
        hts u (List.mem_cons_of_mem t hu)⟩
    next => cases h

theorem token (t : Token) : (Parser.token t).Yields fun _ => True :=
  satisfy fun _ _ _ _ => trivial

/-- A word is read as its text. -/
theorem word : Parser.word.Yields fun text => Unbroken text.toList := by
  refine satisfy fun t text ht hword => ?_
  split at ht
  · cases ht
    exact hword _ rfl
  · cases ht

theorem endOfInput : Parser.endOfInput.Yields fun _ => True := by
  intro ts hts a rest h
  rw [Parser.endOfInput] at h
  split at h
  · cases h
    exact ⟨trivial, hts⟩
  · cases h

/-- The second parser starts with the tokens that the first one was given. -/
theorem orElse (hp : p.Yields P) (hq : q.Yields P) : (Parser.orElse p q).Yields P := by
  intro ts hts a rest h
  rw [Parser.orElse] at h
  split at h
  next r report hread =>
    cases h
    exact hp ts hts a rest (by rw [hread])
  next => exact hq ts hts a rest h

theorem optional (hp : p.Yields P) : (Parser.optional p).Yields fun o => ∀ a ∈ o, P a := by
  refine orElse (hp.bind fun a ha => .pure ?_) (.pure (by simp))
  rintro b ⟨⟩
  exact ha

theorem named (e : Expectation) (hp : p.Yields P) : (Parser.named e p).Yields P :=
  fun ts hts a rest h => hp ts hts a rest h

/-- By induction on the tokens: each round leaves fewer of them, and none with a line break. -/
theorem many (hp : p.Yields P) : (Parser.many p).Yields fun as => ∀ a ∈ as, P a := by
  intro ts
  fun_induction Parser.many p ts with
  | case1 ts report hread =>
    intro hts as rest h
    cases h
    exact ⟨by simp, hts⟩
  | case2 ts a more report hread hlt reply ih =>
    intro hts as rest h
    obtain ⟨ha, hmore⟩ := hp ts hts a more (by rw [hread])
    obtain ⟨⟨bs, rest'⟩, hreply, heq⟩ := Option.map_eq_some_iff.mp h
    cases heq
    obtain ⟨hbs, hrest⟩ := ih hmore bs rest hreply
    refine ⟨fun b hb => ?_, hrest⟩
    rcases List.mem_cons.mp hb with rfl | hb
    · exact ha
    · exact hbs b hb
  | case3 ts a more report hread hge =>
    intro hts as rest h
    cases h
    exact ⟨by simp, hts⟩

end Yields

/-! ### The grammar -/

/-- An atom of a script has no line breaks. -/
abbrev UnbrokenAtom (name : String) : Prop :=
  Unbroken name.toList

/-- Words are put together with single spaces. -/
theorem unbroken_intercalate {words : List String} (h : ∀ word ∈ words, UnbrokenAtom word) :
    UnbrokenAtom (" ".intercalate words) := by
  induction words with
  | nil => simp [UnbrokenAtom, Unbroken]
  | cons word words ih =>
    cases words with
    | nil =>
      rw [String.intercalate_singleton]
      exact h word List.mem_cons_self
    | cons next words =>
      have hrest := ih fun w hw => h w (List.mem_cons_of_mem word hw)
      intro c hc
      rw [String.intercalate_cons_cons] at hc
      simp only [String.toList_append, List.mem_append] at hc
      rcases hc with (hc | hc) | hc
      · exact h word List.mem_cons_self c hc
      · rw [List.mem_singleton.mp hc]
        decide
      · exact hrest c hc

/-- A name is made of words and of the spaces between them. -/
theorem yields_name : name.Yields UnbrokenAtom := by
  refine .named _ (Yields.word.bind fun first hfirst => Yields.word.many.bind fun more hmore =>
    .pure (unbroken_intercalate fun word hword => ?_))
  rcases List.mem_cons.mp hword with rfl | hword
  · exact hfirst
  · exact hmore word hword

theorem yields_signedNumeral : signedNumeral.Yields fun _ => True := by
  -- no atom is read, but the words that are left have to be known
  have hread : Yields (do return ((← optional (token .minus)).isSome, ← word) :
      Parser (Bool × String)) fun _ => True :=
    (Yields.token _).optional.bind fun _ _ => Yields.word.bind fun _ _ => .pure trivial
  intro ts hts n rest h
  rw [signedNumeral] at h
  dsimp only at h
  split at h
  next => cases h
  next negative digits more hmore =>
    split at h
    next =>
      cases h
      exact ⟨trivial, (hread ts hts _ _ hmore).2⟩
    next => cases h

section

variable {e : Parser Expr} (he : e.Yields Expr.Unbroken)

include he

/-- Of the primaries only names and groups spell atoms. -/
theorem yields_primary : (primary e).Yields Primary.Unbroken := by
  have hderef : deref.Yields Primary.Unbroken :=
    .named _ ((Yields.token _).bind fun _ _ => yields_name.bind fun _ _ => .pure trivial)
  have hnumeric : numeric.Yields Primary.Unbroken :=
    .named _ ((Yields.token _).bind fun _ _ => .orElse
      (yields_signedNumeral.bind fun _ _ => .pure trivial)
      (yields_name.bind fun _ _ => .pure trivial))
  have hcall : verbCall.Yields Primary.Unbroken :=
    .named _ (yields_name.optional.bind fun _ _ => (Yields.token _).bind fun _ _ =>
      yields_name.bind fun _ _ => .pure trivial)
  have hgroup : (group e).Yields Primary.Unbroken :=
    (Yields.token _).bind fun _ _ => he.bind fun _ h => (Yields.token _).bind fun _ _ => .pure h
  exact .orElse hderef (.orElse hnumeric (.orElse hcall (.orElse hgroup
    (yields_name.bind fun _ h => .pure h))))

/-- The arguments of a call spell what the expression in them does. -/
theorem yields_item : (item e).Yields Item.Unbroken := by
  have harguments : (arguments e).Yields fun o => ∀ x ∈ o, x.Unbroken :=
    .named _ ((Yields.token _).bind fun _ _ => he.optional.bind fun _ h =>
      (Yields.token _).bind fun _ _ => .pure h)
  refine (yields_primary he).bind fun p hp => harguments.optional.bind fun o ho => ?_
  match o, ho with
  | none, _ => exact .pure hp
  | some none, _ => exact .pure hp
  | some (some x), ho => exact .pure ⟨hp, ho _ rfl x rfl⟩

omit he in
/-- A term nests its items to the right. -/
theorem unbroken_ofItems {first : Item} {more : List Item} (hfirst : first.Unbroken)
    (hmore : ∀ i ∈ more, i.Unbroken) : (Term.ofItems first more).Unbroken := by
  induction more generalizing first with
  | nil => exact hfirst
  | cons next more ih =>
    exact ⟨hfirst, ih (hmore next List.mem_cons_self) fun i hi =>
      hmore i (List.mem_cons_of_mem next hi)⟩

/-- A term spells what its items spell. -/
theorem yields_term : (term e).Yields Term.Unbroken :=
  (yields_item he).bind fun _ hfirst =>
    ((Yields.token _).bind fun _ _ => yields_item he).many.bind fun _ hmore =>
      .pure (unbroken_ofItems hfirst hmore)

omit he in
/-- An expression folds its terms from the left. -/
theorem unbroken_ofTerms {first : Term} {rest : List (Operator × Term)}
    (hfirst : first.Unbroken) (hrest : ∀ r ∈ rest, r.2.Unbroken) :
    (Expr.ofTerms first rest).Unbroken := by
  have hfold : ∀ (rest : List (Operator × Term)) (x : Expr), x.Unbroken →
      (∀ r ∈ rest, r.2.Unbroken) → (rest.foldl (fun x r => .binary x r.1 r.2) x).Unbroken := by
    intro rest
    induction rest with
    | nil => exact fun x hx _ => hx
    | cons r rest ih =>
      exact fun x hx hrest => ih _ ⟨hx, hrest r List.mem_cons_self⟩ fun r' hr' =>
        hrest r' (List.mem_cons_of_mem r hr')
  exact hfold rest _ hfirst hrest

theorem yields_terms : (terms e).Yields Expr.Unbroken := by
  have hoperator : operator.Yields fun _ => True := .satisfy fun _ _ _ _ => trivial
  have hnext : Yields (do let op ← operator; return (op, ← term e)) fun r : Operator × Term =>
      r.2.Unbroken :=
    hoperator.bind fun _ _ => (yields_term he).bind fun _ ht => .pure ht
  exact (yields_term he).bind fun _ hfirst => hnext.many.bind fun _ hrest =>
    .pure (unbroken_ofTerms hfirst hrest)

end

/-- However deep the groups in it are nested, an expression spells no line break. -/
theorem yields_expression : expression.Yields Expr.Unbroken := by
  -- by induction on how deep groups may be nested
  have hdepth : ∀ depth, (expressionOfDepth depth).Yields Expr.Unbroken := by
    intro depth
    induction depth with
    | zero =>
      intro ts hts e rest h
      cases h
    | succ depth ih => exact yields_terms ih
  intro ts hts e rest h
  exact hdepth _ ts hts e rest h

/-- A condition is a comparison or a bare expression, and nothing follows it. -/
theorem yields_condition : condition.Yields Condition.Unbroken := by
  have hcomparison : comparison.Yields fun _ => True := .satisfy fun _ _ _ _ => trivial
  have hcompare : Yields (do
      let subject ← optional expression
      let c ← comparison
      return Condition.compare subject c (← optional expression)) Condition.Unbroken :=
    yields_expression.optional.bind fun _ hs => hcomparison.bind fun _ _ =>
      yields_expression.optional.bind fun _ hv => .pure ⟨hs, hv⟩
  have hbare : Yields (do return Condition.bare (← expression)) Condition.Unbroken :=
    yields_expression.bind fun _ he => .pure he
  exact (hcompare.orElse hbare).bind fun _ hc => Yields.endOfInput.bind fun _ _ => .pure hc

/-- An action is an assignment or a bare expression, and nothing follows it. -/
theorem yields_action : action.Yields Action.Unbroken := by
  have hassignment : assignment.Yields fun _ => True := .satisfy fun _ _ _ _ => trivial
  have hchange : Yields (do
      let target ← optional expression
      let c ← assignment
      return Action.change target c (← optional expression)) Action.Unbroken :=
    yields_expression.optional.bind fun _ ht => hassignment.bind fun _ _ =>
      yields_expression.optional.bind fun _ hv => .pure ⟨ht, hv⟩
  have hbare : Yields (do return Action.bare (← expression)) Action.Unbroken :=
    yields_expression.bind fun _ he => .pure he
  exact (hchange.orElse hbare).bind fun _ ha => Yields.endOfInput.bind fun _ _ => .pure ha

/-- What a whole text is read as. -/
theorem parseAll_of_yields {P : α → Prop} {p : Parser α} (hp : p.Yields P) {cs : List Char}
    (h : Feedless cs) {a : α} (hread : parseAll p cs = .ok a) : P a := by
  rw [parseAll] at hread
  dsimp only at hread
  split at hread
  · cases hread
  · split at hread
    next b rest hresult =>
      cases hread
      exact (hp _ (unbroken_tokensOf h) _ _ hresult).1
    next => cases hread

end Parser

/-! ### Chains -/

theorem unbroken_conditionOfText {body : List Char} (h : Feedless body) {c : Condition}
    (hread : Condition.ofText body = .ok c) : c.Unbroken := by
  rw [Condition.ofText] at hread
  split at hread
  · cases hread
    trivial
  · exact Parser.parseAll_of_yields Parser.yields_condition h hread

/-- Where the run of breaks is cut off, and perhaps one of them is kept, the text in front of it
hides no line feed. -/
theorem feedless_splitBreaks {body : List Char} (h : Feedless body) :
    Feedless (splitBreaks body).1 := by
  have hfront : ∀ n, Feedless ((trimEnd body).take n) := fun n =>
    h.of_prefix ((List.take_prefix n _).trans (prefix_trimEnd body))
  rw [splitBreaks]
  split
  · exact (hfront _).append_cons (by decide) (by decide) .nil
  · exact hfront _

theorem unbroken_instructionOfText {body : List Char} (h : Feedless body) {i : Instruction}
    (hread : Instruction.ofText body = .ok i) : ∀ a ∈ i.action, a.Unbroken := by
  rw [Instruction.ofText] at hread
  have hfront := feedless_splitBreaks h
  dsimp only at hread
  split at hread
  · cases hread
    simp
  · cases haction : parseAll Parser.action (splitBreaks body).1 with
    | error e => rw [haction] at hread; cases hread
    | ok a =>
      rw [haction] at hread
      cases hread
      rintro b ⟨⟩
      exact Parser.parseAll_of_yields Parser.yields_action hfront haction

/-- A segment spells what stands behind its marker. -/
theorem unbroken_segmentOfText {body : List Char} (h : Feedless body) {s : Segment}
    (hread : Segment.ofText body = .ok s) : s.Unbroken := by
  rw [Segment.ofText.eq_def] at hread
  split at hread
  next rest =>
    cases hcondition : Condition.ofText rest with
    | error e => rw [hcondition] at hread; cases hread
    | ok c =>
      rw [hcondition] at hread
      cases hread
      exact unbroken_conditionOfText (h.tail (by decide)) hcondition
  next rest =>
    cases hinstruction : Instruction.ofText rest with
    | error e => rw [hinstruction] at hread; cases hread
    | ok i =>
      rw [hinstruction] at hread
      cases hread
      exact unbroken_instructionOfText (h.tail (by decide)) hinstruction
  next => cases hread

/-- A segment that is read between brackets, or an invalid one in its place. -/
theorem unbroken_bracket {cs : List Char} {n : Nat} (hn : Marker.bracket.lengthAt? cs = some n)
    (h : Feedless cs) {s : Segment} {errors : List (Located SyntaxError)}
    {shift : Located SyntaxError → Located SyntaxError}
    (hread : (match Segment.ofText ((cs.take (n - 1)).drop 1) with
      | .ok s => (s, [])
      | .error es => (.invalid, es.map shift)) = (s, errors)) : s.Unbroken := by
  split at hread
  next t ht =>
    cases hread
    exact unbroken_segmentOfText (h.pair (by decide) hn).1 ht
  next =>
    cases hread
    trivial

/-- The segments of a text. -/
theorem unbroken_segmentsFrom (connector : Connector) (start : Nat) {cs : List Char}
    (h : Feedless cs) :
    ∀ s ∈ (segmentsFrom connector start cs).1, s.2.Unbroken := by
  fun_induction segmentsFrom connector start cs with
  | case1 =>
    intro s hs
    rw [List.mem_singleton.mp hs]
    trivial
  | case2 _ _ _ _ hn _ _ _ hread =>
    intro s hs
    rw [List.mem_singleton.mp hs]
    exact unbroken_bracket hn h hread
  | case3 _ _ _ _ hn _ _ _ hread =>
    intro s hs
    rw [List.mem_singleton.mp hs]
    exact unbroken_bracket hn h hread
  | case4 _ _ cs n hn _ _ _ hread _ c rest hrest next hnext more later heq ih =>
    have hbehind := (h.pair (by decide) hn).2
    rw [hrest] at hbehind
    have hc : c ≠ '\\' := by
      rintro rfl
      cases hnext
    have hmore := ih (hbehind.tail hc)
    rw [heq] at hmore
    intro s hs
    rcases List.mem_cons.mp hs with rfl | hs
    · exact unbroken_bracket hn h hread
    · exact hmore s hs

/-- The atoms of a stored script have no line breaks, if no escape in it stands for a line feed. -/
theorem Chain.unbroken_ofText {script : String} (h : Feedless script.toList) :
    (Chain.ofText script).1.Unbroken := by
  rw [Chain.ofText]
  split
  · exact ⟨trivial, by simp⟩
  · have hsegments := unbroken_segmentsFrom .and 0 h
    split
    next => exact ⟨trivial, by simp⟩
    next c first rest errors heq =>
      rw [heq] at hsegments
      exact ⟨hsegments _ List.mem_cons_self, fun s hs =>
        hsegments s (List.mem_cons_of_mem _ hs)⟩

end Script

end Gamebook
