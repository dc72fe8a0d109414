import Gamebook.Proofs.Script.NounText

/-!
# Names in scripts

The names in a condition or an action are those of nouns, of verbs, and of atoms. They are found
again among its tokens: words that stand side by side, with no word next to them, are one name of
the tree. The only other words are the numerals behind `#` (`Condition.SpelledBy.named`,
`Action.SpelledBy.named`).

So where a name stands apart in a script, what is read of it is `NounText.reference`
(`Condition.reference_mem`, `Instruction.reference_mem`).
-/

namespace Gamebook.Script

open Text

/-! ### Names of trees -/

mutual

/-- The names in a primary. -/
def Primary.names : Primary → List String
  | .atom name => [name]
  | .integer _ => []
  | .integerOf noun => [noun]
  | .deref noun => [noun]
  | .verbCall noun verb => noun.toList ++ [verb]
  | .group e => e.names

/-- The names in an item. -/
def Item.names : Item → List String
  | .primary p => p.names
  | .invoke callee => callee.names
  | .apply callee arguments => callee.names ++ arguments.names

/-- The names in a term. -/
def Term.names : Term → List String
  | .item i => i.names
  | .join i rest => i.names ++ rest.names

/-- The names in an expression. -/
def Expr.names : Expr → List String
  | .term t => t.names
  | .binary left _ right => left.names ++ right.names

end

/-- The names in a tree that may be missing. -/
def optionalNames : Option Expr → List String
  | none => []
  | some e => e.names

/-- The names in a condition. -/
def Condition.names : Condition → List String
  | .always => []
  | .compare subject _ value => optionalNames subject ++ optionalNames value
  | .bare e => e.names

/-- The names in an action. -/
def Action.names : Action → List String
  | .change target _ value => optionalNames target ++ optionalNames value
  | .bare e => e.names

/-! ### Words side by side -/

/-- The words between the other tokens of a row. Where other tokens stand side by side, and at the
ends, there are none. -/
def wordRuns : List Token → List (List String)
  | [] => [[]]
  | .word text :: us => ontoFirst text (wordRuns us)
  | _ :: us => [] :: wordRuns us

/-- Whether a token is a word. -/
def Token.isWord : Token → Bool
  | .word _ => true
  | _ => false

/-- Whether a word stands at a place. -/
def Lexeme.isWord : Lexeme → Bool
  | .token t => t.isWord
  | .unexpected _ => false

theorem Token.isWord_eq_true {t : Token} (h : t.isWord = true) : ∃ text, t = .word text := by
  cases t with
  | word text => exact ⟨text, rfl⟩
  | _ => cases h

/-- A token that is no word begins another run. -/
theorem wordRuns_sign {t : Token} (h : t.isWord = false) (us : List Token) :
    wordRuns (t :: us) = [] :: wordRuns us := by
  rw [wordRuns]
  rintro text rfl
  cases h

theorem wordRuns_eq_cons (us : List Token) : ∃ run runs, wordRuns us = run :: runs := by
  cases us with
  | nil => exact ⟨[], [], rfl⟩
  | cons u us =>
    cases hu : u.isWord with
    | false => exact ⟨[], wordRuns us, wordRuns_sign hu us⟩
    | true =>
      obtain ⟨text, rfl⟩ := Token.isWord_eq_true hu
      rw [wordRuns]
      cases wordRuns us with
      | nil => exact ⟨[text], [], rfl⟩
      | cons run runs => exact ⟨text :: run, runs, rfl⟩

/-- Rows with another token between them have the runs of the one and of the other. -/
theorem wordRuns_append (us : List Token) {t : Token} (h : t.isWord = false) (vs : List Token) :
    wordRuns (us ++ t :: vs) = wordRuns us ++ wordRuns vs := by
  induction us with
  | nil => exact wordRuns_sign h vs
  | cons u us ih =>
    rw [List.cons_append]
    cases hu : u.isWord with
    | false => rw [wordRuns_sign hu, wordRuns_sign hu, ih, List.cons_append]
    | true =>
      obtain ⟨text, rfl⟩ := Token.isWord_eq_true hu
      obtain ⟨run, runs, hruns⟩ := wordRuns_eq_cons us
      rw [wordRuns, wordRuns, ih, hruns]
      rfl

/-- Words alone are a single run. -/
theorem wordRuns_words (words : List String) : wordRuns (words.map .word) = [words] := by
  induction words with
  | nil => rfl
  | cons word words ih =>
    rw [List.map_cons, wordRuns, ih]
    rfl

/-- What words side by side may be: none at all, one of some names, or a numeral. -/
def Named (names : List String) (run : List String) : Prop :=
  run = [] ∨ " ".intercalate run ∈ names ∨
    ∃ word n, run = [word] ∧ Decimal.toWord? word.toList = some n

/-- Whether all words of a row are names or numerals. -/
def AllNamed (names : List String) (us : List Token) : Prop :=
  ∀ run ∈ wordRuns us, Named names run

namespace AllNamed

variable {names more : List String} {us vs : List Token}

theorem nil : AllNamed names [] := by
  intro run hrun
  exact .inl (List.mem_singleton.mp hrun)

/-- More names will do. -/
theorem mono (h : AllNamed names us) (hsub : names ⊆ more) : AllNamed more us :=
  fun run hrun => (h run hrun).imp_right fun h => h.imp_left fun h => hsub h

/-- Words with another token between them are not side by side. -/
theorem append (h : AllNamed names us) {t : Token} (ht : t.isWord = false)
    (hvs : AllNamed more vs) : AllNamed (names ++ more) (us ++ t :: vs) := by
  intro run hrun
  rw [wordRuns_append us ht] at hrun
  rcases List.mem_append.mp hrun with hrun | hrun
  · exact h.mono (List.subset_append_left names more) run hrun
  · exact hvs.mono (List.subset_append_right names more) run hrun

theorem cons {t : Token} (ht : t.isWord = false) (h : AllNamed names us) :
    AllNamed names (t :: us) :=
  append (show AllNamed [] [] from nil) ht h

theorem concat (h : AllNamed names us) {t : Token} (ht : t.isWord = false) :
    AllNamed names (us ++ [t]) := by
  have happend := h.append ht (show AllNamed [] [] from nil)
  rwa [List.append_nil] at happend

/-- A name is a single run of words. -/
theorem name {noun : String} (h : SpelledName noun us) : AllNamed [noun] us := by
  obtain ⟨first, others⟩ := h
  intro run hrun
  rw [← List.map_cons, wordRuns_words, List.mem_singleton] at hrun
  rw [hrun]
  exact .inr (.inl List.mem_cons_self)

/-- A numeral is a run of one word, and needs no name. -/
theorem numeral {word : String} {n : Int64} (h : Decimal.toWord? word.toList = some n) :
    AllNamed names [.word word] := by
  intro run hrun
  rw [wordRuns, wordRuns, ontoFirst, List.mem_singleton] at hrun
  exact .inr (.inr ⟨word, n, hrun, h⟩)

end AllNamed

/-! ### Names of spelled trees -/

theorem Operator.isWord_sign (op : Operator) : op.sign.isWord = false := by
  cases op <;> rfl

mutual

/-- The words of a primary are its names and numerals. -/
theorem Primary.SpelledBy.named : ∀ (p : Primary) {us : List Token}, p.SpelledBy us →
    AllNamed p.names us
  | .atom _, _, .atom h => .name h
  | .integer _, _, .integer h => .cons rfl (.numeral h)
  | .integer _, _, .negative h =>
    .cons rfl (.cons rfl (.numeral h))
  | .integerOf _, _, .integerOf h => .cons rfl (.name h)
  | .deref _, _, .deref h => .cons rfl (.name h)
  | .verbCall none _, _, .verbCall hnoun hverb => by
    rw [show _ = [] from hnoun]
    exact .cons rfl (.name hverb)
  | .verbCall (some _) _, _, .verbCall hnoun hverb =>
    (AllNamed.name hnoun).append rfl (.name hverb)
  | .group e, _, .group h =>
    .cons rfl ((Expr.SpelledBy.named e h).concat rfl)

/-- The words of an item are those of what it calls and of the arguments. -/
theorem Item.SpelledBy.named : ∀ (i : Item) {us : List Token}, i.SpelledBy us →
    AllNamed i.names us
  | .primary p, _, .primary h => Primary.SpelledBy.named p h
  | .invoke callee, _, .invoke h => by
    rw [← List.singleton_append, ← List.append_assoc]
    exact ((Primary.SpelledBy.named callee h).concat rfl).concat
      rfl
  | .apply callee arguments, _, .apply h harguments =>
    ((Primary.SpelledBy.named callee h).append rfl
      (Expr.SpelledBy.named arguments harguments)).concat rfl

/-- Between two items of a term stands a comma. -/
theorem Term.SpelledBy.named : ∀ (t : Term) {us : List Token}, t.SpelledBy us →
    AllNamed t.names us
  | .item i, _, .item h => Item.SpelledBy.named i h
  | .join i rest, _, .join h hrest =>
    (Item.SpelledBy.named i h).append rfl (Term.SpelledBy.named rest hrest)

/-- Between two terms of an expression stands an operator. -/
theorem Expr.SpelledBy.named : ∀ (e : Expr) {us : List Token}, e.SpelledBy us →
    AllNamed e.names us
  | .term t, _, .term h => Term.SpelledBy.named t h
  | .binary left op right, _, .binary h hright =>
    (Expr.SpelledBy.named left h).append op.isWord_sign (Term.SpelledBy.named right hright)

end

theorem allNamed_optional {o : Option Expr} {us : List Token}
    (h : SpelledOptional Expr.SpelledBy o us) : AllNamed (optionalNames o) us := by
  cases o with
  | none =>
    rw [show us = [] from h]
    exact .nil
  | some e => exact Expr.SpelledBy.named e h

/-- The words of a condition are its names and numerals. -/
theorem Condition.SpelledBy.named {c : Condition} {us : List Token} (h : c.SpelledBy us) :
    AllNamed c.names us := by
  cases h with
  | @compare _ _ c sign _ _ hsubject hsign hvalue =>
    refine (allNamed_optional hsubject).append ?_ (allNamed_optional hvalue)
    revert sign
    cases c <;> decide
  | bare h => exact Expr.SpelledBy.named _ h

/-- The words of an action are its names and numerals. -/
theorem Action.SpelledBy.named {a : Action} {us : List Token} (h : a.SpelledBy us) :
    AllNamed a.names us := by
  cases h with
  | @change _ _ c _ _ htarget hvalue =>
    refine (allNamed_optional htarget).append ?_ (allNamed_optional hvalue)
    cases c <;> rfl
  | bare h => exact Expr.SpelledBy.named _ h

/-! ### Names apart -/

/-- Whether a name stands apart in a text, with `front` in front of it and `behind` behind it: what
is read of the three parts is what is read of the text, and no word is next to the name. -/
structure Apart (front name behind : List Char) : Prop where
  seam : lexed (front ++ (name ++ behind)) = lexed front ++ lexed (name ++ behind)
  before : ∀ l ∈ (lexed front).getLast?, l.isWord = false
  stops : Stops behind
  after : ∀ l ∈ (lexed behind).head?, l.isWord = false

/-- Words without other words next to them are side by side. -/
theorem mem_wordRuns {us vs : List Token} (hus : ∀ t ∈ us.getLast?, t.isWord = false)
    (hvs : ∀ t ∈ vs.head?, t.isWord = false) (words : List String) :
    words ∈ wordRuns (us ++ (words.map .word ++ vs)) := by
  have hbehind : words ∈ wordRuns (words.map .word ++ vs) := by
    cases vs with
    | nil =>
      rw [List.append_nil, wordRuns_words]
      exact List.mem_cons_self
    | cons v vs =>
      rw [wordRuns_append _ (hvs v rfl), wordRuns_words]
      exact List.mem_cons_self
  rcases List.eq_nil_or_concat us with rfl | ⟨us, u, rfl⟩
  · exact hbehind
  · have hu : u.isWord = false := hus u (by simp)
    rw [List.concat_eq_append, List.append_assoc, List.singleton_append, wordRuns_append us hu]
    exact List.mem_append_right _ hbehind

/-- The words of a name that stands apart are side by side among the tokens of the text. -/
theorem Apart.mem_wordRuns {w : NounText} {front behind : List Char}
    (h : Apart front w.cleaned behind) {us : List Token}
    (hus : lexed? (front ++ (w.cleaned ++ behind)) = some us) :
    NounText.words w.cleaned ∈ wordRuns us := by
  have hread := lexed?_eq_some_iff.mp hus
  rw [h.seam, w.wordy_cleaned.lexed_append (wordLength_stop h.stops),
    ← words_eq_gapWords w.wordy_cleaned] at hread
  obtain ⟨before, more, rfl, hbefore, hmore⟩ := List.map_eq_append_iff.mp hread.symm
  obtain ⟨words, after, rfl, hwords, hafter⟩ := List.map_eq_append_iff.mp hmore
  have hmap : words = (NounText.words w.cleaned).map .word := by
    rw [← Function.comp_def, ← List.map_map] at hwords
    exact List.map_injective_iff.mpr (fun _ _ => Lexeme.token.inj) hwords
  rw [hmap]
  refine Script.mem_wordRuns (fun t ht => h.before (.token t) ?_)
    (fun t ht => h.after (.token t) ?_) _
  · rw [← hbefore, List.getLast?_map, ht]
    rfl
  · rw [← hafter, List.head?_map, ht]
    rfl

/-- Whether a name is read as a numeral where one is wanted. -/
def NounText.Numeral (w : NounText) : Prop :=
  ∃ n, Decimal.toWord? w.reference.toList = some n

/-- A name that stands apart is one of the names, or a numeral. -/
theorem Apart.reference_mem {w : NounText} {front behind : List Char}
    (h : Apart front w.cleaned behind) (hw : w.reference ≠ "") {us : List Token}
    (hus : lexed? (front ++ (w.cleaned ++ behind)) = some us) {names : List String}
    (hnamed : AllNamed names us) : w.reference ∈ names ∨ w.Numeral := by
  rcases hnamed _ (h.mem_wordRuns hus) with hnil | hmem | ⟨word, n, hword, hn⟩
  · rw [NounText.reference, hnil] at hw
    exact absurd rfl hw
  · exact .inl hmem
  · refine .inr ⟨n, ?_⟩
    rw [NounText.reference, hword, String.intercalate_singleton]
    exact hn

/-- White space only is left of strokes that are all line feeds. -/
theorem gapWords_of_isBlank (s : Stroke) (rest : List Spaced)
    (h : isBlank (s.cleaned ++ spacedClean s rest) = true) :
    gapWords (s.cleaned ++ spacedClean s rest) = [] := by
  have hfeed {s : Stroke} {behind : List Char} (h : isBlank (s.cleaned ++ behind) = true) :
      s.cleaned = ['\n'] := by
    by_cases hs : s.isFeed = true
    · exact if_pos hs
    · rw [Stroke.cleaned, if_neg hs, s.isBlank_text_append] at h
      cases h
  have hgap {c : Char} (hc : isGap c = true) (cs : List Char) :
      gapWords (c :: cs) = gapWords cs := by
    rw [gapWords, gapWords, gapPieces_char (ne_escape_of_isGap hc), if_pos hc]
    rfl
  induction rest generalizing s with
  | nil =>
    rw [hfeed h]
    rfl
  | cons g rest ih =>
    have hall := List.all_eq_true.mp h
    have hrest := ih g.stroke (List.all_eq_true.mpr fun c hc => hall c (by simp [spacedClean, hc]))
    rw [hfeed h, List.singleton_append, hgap rfl, spacedClean, Stroke.gapBehind]
    split
    · exact hrest
    · rw [List.singleton_append, hgap rfl]
      exact hrest

/-- A text with a name in it shows. -/
theorem NounText.isBlank_append {w : NounText} (hw : w.reference ≠ "") (front behind : List Char) :
    isBlank (front ++ (w.cleaned ++ behind)) = false := by
  rw [Bool.eq_false_iff]
  intro hblank
  have hall := List.all_eq_true.mp hblank
  have hwords : gapWords w.cleaned = [] :=
    gapWords_of_isBlank _ _ (List.all_eq_true.mpr fun c hc =>
      hall c (List.mem_append_right _ (List.mem_append_left _ hc)))
  rw [reference, words_eq_gapWords w.wordy_cleaned, hwords] at hw
  exact hw rfl

/-- A name that stands apart in a condition is one of its names, or a numeral. -/
theorem Condition.reference_mem {w : NounText} {front behind : List Char}
    (h : Apart front w.cleaned behind) (hw : w.reference ≠ "") {c : Condition}
    (hread : Condition.ofText (front ++ (w.cleaned ++ behind)) = .ok c) :
    w.reference ∈ c.names ∨ w.Numeral := by
  rw [Condition.ofText, w.isBlank_append hw, if_neg Bool.false_ne_true] at hread
  obtain ⟨us, hus, hspelled⟩ := spelled_of_parseAll Parser.reads_condition hread
  exact h.reference_mem hw hus hspelled.named

/-- A name that stands apart in an action is one of its names, or a numeral. -/
theorem Instruction.reference_mem {w : NounText} {body front behind : List Char}
    (hbody : (splitBreaks body).1 = front ++ (w.cleaned ++ behind))
    (h : Apart front w.cleaned behind) (hw : w.reference ≠ "") {i : Instruction}
    (hread : Instruction.ofText body = .ok i) :
    ∃ a, i.action = some a ∧ (w.reference ∈ a.names ∨ w.Numeral) := by
  rw [Instruction.ofText] at hread
  dsimp only at hread
  rw [hbody, w.isBlank_append hw, if_neg Bool.false_ne_true] at hread
  cases haction : parseAll Parser.action (front ++ (w.cleaned ++ behind)) with
  | error es =>
    rw [haction] at hread
    cases hread
  | ok a =>
    rw [haction] at hread
    cases hread
    obtain ⟨us, hus, hspelled⟩ := spelled_of_parseAll Parser.reads_action haction
    exact ⟨a, rfl, h.reference_mem hw hus hspelled.named⟩

end Gamebook.Script
