import Gamebook.Proofs.Pattern.Names
import Gamebook.Proofs.Script.Breaks
import Gamebook.Proofs.Script.Folding
import Gamebook.Proofs.Script.Sides

/-!
# Scripts with a noun in the hole

Of a script with the noun in the hole the same chain is read, with the noun in the hole of every
name (`Filling.ofText_chain`). In particular, where a name is just the hole, the noun stands
instead.
-/

namespace Gamebook

open Text Script

/-! ### Other names -/

namespace Script

/-- A condition with other names in it. -/
def Condition.rename (g : String → String) : Condition → Condition
  | .always => .always
  | .compare subject c value => .compare (subject.map (Expr.rename g)) c (value.map (Expr.rename g))
  | .bare e => .bare (e.rename g)

/-- An action with other names in it. -/
def Action.rename (g : String → String) : Action → Action
  | .change target c value => .change (target.map (Expr.rename g)) c (value.map (Expr.rename g))
  | .bare e => .bare (e.rename g)

/-- A segment with other names in it. -/
def Segment.rename (g : String → String) : Segment → Segment
  | .condition c => .condition (c.rename g)
  | .instruction i => .instruction { i with action := i.action.map (Action.rename g) }
  | .invalid => .invalid

/-- A chain with other names in it. -/
def Chain.rename (g : String → String) (c : Chain) : Chain :=
  ⟨c.first.rename g, c.rest.map fun (connector, s) => (connector, s.rename g)⟩

end Script

namespace Filling

open Parser

/-- Whether the noun may be put into the hole of a script: no backslash stands directly in front of
the hole, and no numeral would be read behind a sign `#`. -/
structure Fits (F : Filling) (cs : List Char) : Prop where
  bare : F.Bare cs
  uncounted : ¬ F.Counted cs

variable {F : Filling} {α : Type} {cs ds : List Char} {c : Char}

namespace Fits

/-- If the noun may be put into a text, it may be put into any part of it. -/
theorem of_isInfix (h : F.Fits cs) (hds : ds <:+: cs) : F.Fits ds :=
  ⟨h.bare.of_isInfix hds, fun hcounted => h.uncounted (hcounted.of_isInfix hds)⟩

theorem tail (h : F.Fits (c :: cs)) : F.Fits cs :=
  h.of_isInfix (List.suffix_cons c cs).isInfix

theorem left (h : F.Fits (cs ++ ds)) : F.Fits cs :=
  h.of_isInfix (List.prefix_append cs ds).isInfix

theorem right (h : F.Fits (cs ++ ds)) : F.Fits ds :=
  h.of_isInfix (List.suffix_append cs ds).isInfix

end Fits

/-! ### Conditions and actions -/

/-- No noun is empty, so a row of tokens is at its end on both sides or on none. -/
theorem alike_endOfInput (n : Nat) : Alike F.Beside n id endOfInput endOfInput := by
  intro m ts us _ hrows
  cases ts with
  | nil =>
    rw [hrows.nil]
    exact .inr ⟨(), [], [], rfl, rfl, .inl ⟨rfl, rfl⟩⟩
  | cons t ts =>
    have hlength := (lexical_beside.length hrows).2
    rw [← hrows.length] at hlength
    cases us with
    | nil => cases hlength
    | cons u us => exact .inl ⟨rfl, rfl⟩

/-- Conditions and actions are sentences alike: two expressions with a sign between them, or a lone
one. -/
theorem alike_sentence {γ : Type} {make : Option Expr → γ → Option Expr → α} {bare : Expr → α}
    {sign : Parser γ} {f : α → α} (hsign : ∀ n, Alike F.Beside n id sign sign)
    (hmake : ∀ l c r, f (make l c r) =
      make (l.map (Expr.rename F.name)) c (r.map (Expr.rename F.name)))
    (hbare : ∀ e, f (bare e) = bare (e.rename F.name)) (n : Nat) :
    Alike F.Beside n f (sentence make bare sign) (sentence make bare sign) := by
  have hexpression := F.lexical_beside.expression n
  have hsides : Alike F.Beside n f (sides make sign) (sides make sign) := by
    refine hexpression.optional.bind fun l => (hsign n).bind fun c => hexpression.optional.bind
      fun r => ?_
    rw [id, ← hmake]
    exact .pure f _
  have hlone : Alike F.Beside n f (do return bare (← expression))
      (do return bare (← expression)) := by
    refine hexpression.bind fun e => ?_
    rw [← hbare]
    exact .pure f _
  exact (hsides.orElse hlone).bind fun x => (alike_endOfInput n).bind fun _ => .pure f x

/-- No sign of a sentence is a word. -/
theorem alike_bars {es : List Expectation} {meaning : Token → Option α}
    (h : ∀ {t a}, meaning t = some a → t.Bars) (n : Nat) :
    Alike F.Beside n id (satisfy es meaning) (satisfy es meaning) := by
  refine alike_sign (fun text => Option.eq_none_iff_forall_ne_some.mpr fun a ha => ?_) n
  cases (h ha).1

/-- A condition is read alike, with the noun in the hole of its names. -/
theorem alike_condition (n : Nat) :
    Alike F.Beside n (Condition.rename F.name) condition condition := by
  obtain ⟨meaning, heq, hbars⟩ := condition_eq
  rw [heq]
  refine alike_sentence (alike_bars hbars) (fun l c r => ?_) (fun e => ?_) n
  · rfl
  · rfl

/-- So is an action. -/
theorem alike_action (n : Nat) : Alike F.Beside n (Action.rename F.name) action action := by
  obtain ⟨meaning, heq, hbars⟩ := action_eq
  rw [heq]
  refine alike_sentence (alike_bars hbars) (fun l c r => ?_) (fun e => ?_) n
  · rfl
  · rfl

/-- Where a hash sign is read, one is written. -/
theorem exists_hash {ls ms : List Lexeme} (h : lexed cs = ls ++ .token .hash :: ms) :
    ∃ front behind, cs = front ++ '#' :: behind ∧ lexed behind = ms := by
  induction cs using lexed_induction generalizing ls with
  | nil =>
    rw [lexed, lexemes, lexemesFrom] at h
    exact absurd h (by simp)
  | gap c rest hgap ih =>
    rw [lexed_gap hgap] at h
    obtain ⟨front, behind, rfl, hbehind⟩ := ih h
    exact ⟨c :: front, behind, rfl, hbehind⟩
  | operator spelling t behind hfind ih =>
    rw [lexed_operator hfind] at h
    rcases List.cons_eq_append_iff.mp h with ⟨-, hhere⟩ | ⟨ls', -, hlater⟩
    · obtain ⟨ht, rfl⟩ := List.cons.inj hhere
      have hspelling : ∀ entry ∈ operators, entry.2 = .hash → entry.1 = ['#'] := by decide
      have heq := hspelling _ (List.mem_of_find?_eq_some hfind) (Lexeme.token.inj ht).symm
      exact ⟨[], behind, congrArg (· ++ behind) heq, rfl⟩
    · obtain ⟨front, behind, rfl, hbehind⟩ := ih hlater
      exact ⟨spelling ++ front, behind, (List.append_assoc _ _ _).symm, hbehind⟩
  | word raw behind _ _ _ hword ih =>
    rw [hword] at h
    rcases List.cons_eq_append_iff.mp h with ⟨-, hhere⟩ | ⟨ls', -, hlater⟩
    · cases hhere
    · obtain ⟨front, behind, rfl, hbehind⟩ := ih hlater
      exact ⟨raw ++ front, behind, (List.append_assoc _ _ _).symm, hbehind⟩
  | unexpected c rest hgap hfind hzero ih =>
    rw [lexed_unexpected hfind hgap hzero] at h
    rcases List.cons_eq_append_iff.mp h with ⟨-, hhere⟩ | ⟨ls', -, hlater⟩
    · cases hhere
    · obtain ⟨front, behind, rfl, hbehind⟩ := ih hlater
      exact ⟨c :: front, behind, rfl, hbehind⟩

/-- Where a word counts that is read, one counts that is written. -/
theorem Counts.exists_word {us : List Token} (h : F.Counts us) (hcs : lexed cs = us.map .token) :
    ∃ signs word behind, cs = signs ++ (word ++ behind) ∧
      (∀ c ∈ signs, isGap c = true ∨ c = '-') ∧ WordText word ∧ F.Numbers (unescape word) := by
  induction cs using lexed_induction generalizing us with
  | nil =>
    rw [lexed, lexemes, lexemesFrom] at hcs
    rw [List.map_eq_nil_iff.mp hcs.symm] at h
    exact h.elim
  | gap c rest hgap ih =>
    rw [lexed_gap hgap] at hcs
    obtain ⟨signs, word, behind, rfl, hsigns, hword⟩ := ih h hcs
    exact ⟨c :: signs, word, behind, rfl, List.forall_mem_cons.mpr ⟨.inl hgap, hsigns⟩, hword⟩
  | operator spelling t behind hfind ih =>
    rw [lexed_operator hfind] at hcs
    obtain ⟨u, us, rfl, hu, hus⟩ := List.map_eq_cons_iff.mp hcs.symm
    obtain rfl := Lexeme.token.inj hu
    have hentry := List.mem_of_find?_eq_some hfind
    by_cases hminus : u = .minus
    · subst hminus
      have hspelling : ∀ entry ∈ operators, entry.2 = .minus → entry.1 = ['-'] := by decide
      obtain rfl : spelling = ['-'] := hspelling _ hentry rfl
      have hmore : F.Counts us := h
      obtain ⟨signs, word, behind, rfl, hsigns, hword⟩ := ih hmore hus.symm
      exact ⟨'-' :: signs, word, behind, rfl, List.forall_mem_cons.mpr ⟨.inr rfl, hsigns⟩, hword⟩
    · have hword : ∀ entry ∈ operators, ∀ text, entry.2 ≠ .word text := by simp [operators]
      rw [Counts] at h
      · exact h.elim
      · exact fun _ heq => hminus (List.cons.inj heq).1
      · exact fun _ _ heq => hword _ hentry _ (List.cons.inj heq).1
  | word raw behind hraw _ _ hword _ =>
    rw [hword] at hcs
    obtain ⟨u, us, rfl, hu, -⟩ := List.map_eq_cons_iff.mp hcs.symm
    rw [Lexeme.token.inj hu, Counts, String.toList_ofList] at h
    exact ⟨[], raw, behind, rfl, by simp, hraw, h⟩
  | unexpected c rest hgap hfind hzero _ =>
    rw [lexed_unexpected hfind hgap hzero] at hcs
    obtain ⟨u, us, -, hu, -⟩ := List.map_eq_cons_iff.mp hcs.symm
    cases hu

/-- Behind no sign `#` that is read a word counts. -/
theorem Fits.not_counts (h : F.Fits cs) {us front behind : List Token}
    (hus : lexed cs = us.map .token) (hsplit : us = front ++ .hash :: behind) :
    ¬ F.Counts behind := by
  intro hcounts
  rw [hsplit, List.map_append, List.map_cons] at hus
  obtain ⟨before, rest, rfl, hrest⟩ := exists_hash hus
  obtain ⟨signs, word, after, rfl, hsigns, hword, hnumbers⟩ := hcounts.exists_word hrest
  exact h.uncounted ⟨before, signs, word, after, rfl, hsigns, hword, hnumbers⟩

/-- What a whole text is read as, if all of it belongs to tokens. -/
theorem toOption_parseAll (p : Parser α) (cs : List Char) : (parseAll p cs).toOption =
    (lexed? cs).bind fun _ => (p (tokensOf (lexemes cs))).result.map Prod.fst := by
  rw [parseAll, lexed?]
  dsimp only
  split
  next c more hfound =>
    rw [if_neg (by rw [hfound]; exact List.cons_ne_nil _ _)]
    rfl
  next hnone =>
    rw [if_pos hnone, Option.bind_some]
    cases (p (tokensOf (lexemes cs))).result with
    | none => rfl
    | some r => rfl

/-- What is read of a whole text is read of it with the noun in the hole. -/
theorem parseAll_fill {p : Parser α} {f : α → α} (hp : ∀ n, Alike F.Beside n f p p)
    (h : F.Fits cs) :
    (parseAll p (F.fill cs)).toOption = (parseAll p cs).toOption.map f := by
  have hfill := F.lexed?_fill h.bare
  rw [toOption_parseAll, toOption_parseAll, hfill]
  cases hus : lexed? cs with
  | none => rfl
  | some us =>
    rw [hus, Option.map_some, lexed?_eq_some_iff] at hfill
    have hlexed := lexed?_eq_some_iff.mp hus
    have hvalues := (values_tokensOf hlexed).1
    have hrows : F.Beside (tokensOf (lexemes cs)).length (tokensOf (lexemes cs))
        (tokensOf (lexemes (F.fill cs))) := by
      refine ⟨rfl, ?_, fun front behind => h.not_counts (hvalues ▸ hlexed)⟩
      rw [(values_tokensOf hfill).1, hvalues]
    rcases hp _ _ _ _ (Nat.le_refl _) hrows with ⟨hnone, hnone'⟩ |
      ⟨a, rest, rest', hread, hread', -⟩
    · rw [Option.map_some, Option.bind_some, Option.bind_some, hnone, hnone']
      rfl
    · rw [Option.map_some, Option.bind_some, Option.bind_some, hread, hread']
      rfl

/-! ### Segments -/

/-- A text ends in a mark just if it does with the noun in the hole. -/
theorem getLast?_fill {c : Char} (hc : isPlain c = false) :
    (F.fill cs).getLast? = some c ↔ cs.getLast? = some c := by
  rw [← List.head?_reverse, ← List.head?_reverse, fill_reverse, F.reverse.head?_fill hc]

/-- The condition of a segment, which may be blank on both sides. -/
theorem ofText_condition (h : F.Fits cs) : (Condition.ofText (F.fill cs)).toOption =
    (Condition.ofText cs).toOption.map (Condition.rename F.name) := by
  rw [Condition.ofText, Condition.ofText, isBlank_fill]
  split
  · rfl
  · exact parseAll_fill alike_condition h

/-- The same breaks are split off. -/
theorem splitBreaks_fill (cs : List Char) :
    splitBreaks (F.fill cs) = (F.fill (splitBreaks cs).1, (splitBreaks cs).2) := by
  obtain ⟨front, n, hfront, heq⟩ := exists_marks (trimEnd cs)
  have hmarks (n : Nat) : F.fill (List.replicate n '<') = List.replicate n '<' :=
    fill_of_notMem fun hmem => ne_hole (F := F) rfl (List.eq_of_mem_replicate hmem).symm
  have hback : 0 < backslashes (F.fill front) ↔ 0 < backslashes front := by
    rw [backslashes_pos_iff, backslashes_pos_iff, getLast?_fill rfl]
  have heq' : trimEnd (F.fill cs) = F.fill front ++ List.replicate n '<' := by
    rw [trimEnd_fill, heq, fill_append, hmarks]
  have hfront' : (F.fill front).getLast? ≠ some '<' := (getLast?_fill rfl).not.mpr hfront
  rw [splitBreaks_of_trimEnd heq hfront, splitBreaks_of_trimEnd heq' hfront']
  simp only [hback]
  split
  · rw [fill_append, show F.fill ['<'] = ['<'] from hmarks 1]
  · rfl

theorem toOption_map {ε α β : Type} (x : Except ε α) (f : α → β) :
    (x.map f).toOption = x.toOption.map f := by
  cases x <;> rfl

/-- The instruction of a segment, with as many breaks. -/
theorem ofText_instruction (h : F.Fits cs) : (Instruction.ofText (F.fill cs)).toOption =
    (Instruction.ofText cs).toOption.map fun i =>
      { i with action := i.action.map (Action.rename F.name) } := by
  have hfits : F.Fits (splitBreaks cs).1 := h.of_isInfix (prefix_splitBreaks cs).isInfix
  rw [Instruction.ofText, Instruction.ofText, splitBreaks_fill]
  dsimp only
  rw [isBlank_fill]
  split
  · rfl
  · have haction := parseAll_fill alike_action hfits
    rw [toOption_map, toOption_map, haction, Option.map_map, Option.map_map]
    rfl

/-- Without a mark there is no segment. -/
theorem ofText_unmarked {c : Char} (hc : c ≠ '?' ∧ c ≠ '!') (rest : List Char) :
    (Segment.ofText (c :: rest)).toOption = none := by
  rw [Segment.ofText]
  · rfl
  · rintro _ ⟨⟩
    exact hc.1 rfl
  · rintro _ ⟨⟩
    exact hc.2 rfl

/-- The same segment stands between brackets. -/
theorem ofText_segment (h : F.Fits cs) : (Segment.ofText (F.fill cs)).toOption =
    (Segment.ofText cs).toOption.map (Segment.rename F.name) := by
  rcases F.fill_cases cs with ⟨rfl, hfill⟩ | ⟨c, rest, -, rfl, hfill⟩ |
    ⟨rest, d, more, rfl, hd, -, hfill⟩
  · rw [hfill]
    rfl
  · rw [hfill]
    by_cases hcondition : c = '?'
    · subst hcondition
      rw [Segment.ofText, Segment.ofText, toOption_map, toOption_map, ofText_condition h.tail,
        Option.map_map, Option.map_map]
      rfl
    · by_cases hinstruction : c = '!'
      · subst hinstruction
        rw [Segment.ofText, Segment.ofText, toOption_map, toOption_map, ofText_instruction h.tail,
          Option.map_map, Option.map_map]
        rfl
      · rw [ofText_unmarked ⟨hcondition, hinstruction⟩, ofText_unmarked ⟨hcondition, hinstruction⟩]
        rfl
  · have hmark {c : Char} (hc : isPlain c = true) : c ≠ '?' ∧ c ≠ '!' :=
      ⟨Stroke.ne_of_isPlain hc rfl, Stroke.ne_of_isPlain hc rfl⟩
    rw [hfill, ofText_unmarked (hmark hd), ofText_unmarked (hmark F.shown)]
    rfl

/-- A segment that could not be read could not be read with the noun in it either. -/
theorem ofBody_fill (h : F.Fits cs) :
    Segment.ofBody (F.fill cs) = (Segment.ofBody cs).rename F.name := by
  have hbody (body : List Char) : Segment.ofBody body =
      (Segment.ofText body).toOption.getD .invalid := by
    rw [Segment.ofBody]
    cases Segment.ofText body <;> rfl
  rw [hbody, hbody, ofText_segment h]
  cases (Segment.ofText cs).toOption <;> rfl

/-! ### Chains -/

/-- Segments with the noun in the hole of every name. -/
def renameSegments (F : Filling) (segments : List (Connector × Segment)) :
    List (Connector × Segment) :=
  segments.map fun (connector, s) => (connector, s.rename F.name)

/-- The same segments are read, to the end or not. -/
theorem readSegments_fill (connector : Connector) (h : F.Fits cs) :
    readSegments connector (F.fill cs) =
      (F.renameSegments (readSegments connector cs).1, (readSegments connector cs).2) := by
  induction hn : cs.length using Nat.strongRecOn generalizing connector cs with
  | ind length ih =>
    by_cases hopens : cs.head? = some '['
    · obtain ⟨rest, rfl⟩ := List.head?_eq_some_iff.mp hopens
      rw [fill_mark rfl]
      rcases findClose_cases '[' ']' (by decide) (by decide) h.tail.bare 0 with ⟨hnone, hnone'⟩ |
        ⟨body, behind, rfl, hsplit, hclose, hclose'⟩
      · have hmissing {rest : List Char} (hclose : findClose '[' ']' 0 rest = none) :
            Marker.bracket.lengthAt? ('[' :: rest) = none := by
          rw [Marker.bracket, Marker.lengthAt?_paired, hclose]
          rfl
        rw [readSegments, readSegments, readFrom_missing (hmissing hnone),
          readFrom_missing (hmissing hnone')]
        rfl
      · have hbehind : F.Fits behind := h.tail.right.tail
        rw [hsplit] at hclose' ⊢
        have hread := readSegments_bracket hclose connector
        have hread' := readSegments_bracket hclose' connector
        rw [List.cons_append] at hread hread'
        rw [hread, hread', ofBody_fill h.tail.left]
        rcases F.fill_cases behind with ⟨rfl, hfill⟩ | ⟨c, rest, -, rfl, hfill⟩ |
          ⟨rest, d, more, rfl, hd, -, hfill⟩
        · rw [hfill]
          rfl
        · rw [hfill, readBehind, readBehind]
          cases Connector.ofChar? c with
          | none => rfl
          | some next =>
            have hshorter : rest.length < length := by
              rw [← hn]
              simp only [List.length_cons, List.length_append]
              omega
            dsimp only
            rw [ih rest.length hshorter next hbehind.tail rfl]
            rfl
        · have hnone {c : Char} (hc : isPlain c = true) : Connector.ofChar? c = none := by
            rw [Connector.ofChar?, if_neg (Stroke.ne_of_isPlain hc rfl),
              if_neg (Stroke.ne_of_isPlain hc rfl)]
          rw [hfill, readBehind, readBehind, hnone hd, hnone F.shown]
          rfl
    · rw [readSegments_missing hopens, readSegments_missing ((head?_fill rfl).not.mpr hopens)]
      rfl

/-- **Names are put in, not syntax.** Of a script with the noun in the hole the same chain is read,
with the noun in the hole of every name. -/
theorem ofText_chain {script : String} (h : F.Fits script.toList) :
    (Chain.ofText (F.name script)).1 = (Chain.ofText script).1.rename F.name := by
  have hblank : isBlank (F.name script).toList = isBlank script.toList := by
    rw [name_toList, isBlank_fill]
  cases hshown : isBlank script.toList with
  | true =>
    rw [hshown] at hblank
    rw [Chain.ofText, Chain.ofText, if_pos hshown, if_pos hblank]
    rfl
  | false =>
    obtain ⟨s, rest, hread, hchain⟩ := ofText_shown hshown
    obtain ⟨s', rest', hread', hchain'⟩ := ofText_shown (hblank.trans hshown)
    rw [name_toList, readSegments_fill .and h, hread] at hread'
    obtain ⟨hfirst, hrest⟩ := List.cons.inj hread'
    rw [hchain, hchain', ← hrest, ← (Prod.mk.inj hfirst).2]
    rfl

end Filling

end Gamebook
