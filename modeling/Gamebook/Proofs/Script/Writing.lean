import Gamebook.Proofs.Script.Completeness
import Gamebook.Proofs.Value.Literal

/-!
# Writing scripts

Every condition and every action can be written. Its tokens are read off the tree, with each name as
a single word; and a row of tokens is written with a space behind each of them, and a backslash in
front of what a word does not hold as it is. Reading what is written gives the tokens back
(`lexed?_write`).

Together with what is spelled and what is found this says which texts the parsers accept, and what
they make of them (`ofText_grammar`).
-/

namespace Gamebook.Script

/-! ### Tokens of a text -/

/-- The tokens of a text in which every character belongs to one. -/
def lexed? (cs : List Char) : Option (List Token) :=
  if unexpectedOf (lexemes cs) = [] then some (Tokens.values (tokensOf (lexemes cs))) else none

/-- Whether a character is written as it is. A word may hold other white space than the gaps, but a
text of nothing else would be blank. -/
def isPlain (c : Char) : Bool :=
  isWordChar c && !Text.isSpace c

/-- What is written for one character of a word. -/
def writeChar (c : Char) : List Char :=
  if c = '\n' then ['\\', 'n'] else if isPlain c then [c] else ['\\', c]

/-- What is written for a token. -/
def Token.written : Token → List Char
  | .word text => text.toList.flatMap writeChar
  | t => t.text.toList

/-- What is written for a row of tokens. -/
def write (us : List Token) : List Char :=
  us.flatMap fun u => u.written ++ [' ']

/-- Whether there is a way to write a word: it must not be empty, and a carriage return always ends
a word. -/
def Writable (text : String) : Prop :=
  text ≠ "" ∧ '\r' ∉ text.toList

/-- Whether all words among some tokens can be written. -/
def WritableTokens (us : List Token) : Prop :=
  ∀ text, .word text ∈ us → Writable text

/-- There are three ways to write a character: as the escape of the line feed, as it is, and behind
a backslash. -/
theorem writeChar_cases (c : Char) :
    (c = '\n' ∧ writeChar c = ['\\', 'n']) ∨
    (isPlain c = true ∧ writeChar c = [c]) ∨
    (c ≠ '\n' ∧ c ≠ 'n' ∧ writeChar c = ['\\', c]) := by
  unfold writeChar
  by_cases hfeed : c = '\n'
  · exact .inl ⟨hfeed, if_pos hfeed⟩
  · rw [if_neg hfeed]
    by_cases hplain : isPlain c
    · exact .inr (.inl ⟨hplain, if_pos hplain⟩)
    · refine .inr (.inr ⟨hfeed, ?_, if_neg hplain⟩)
      rintro rfl
      exact hplain rfl

/-- A character that is written as it is belongs to a word and shows, so it starts no escape and no
operator. -/
theorem isPlain_cases {c : Char} (h : isPlain c = true) :
    isWordChar c = true ∧ c ≠ '\\' ∧ isGap c = false ∧ c ∉ reserved ∧ Text.isSpace c = false := by
  rw [isPlain, Bool.and_eq_true, Bool.not_eq_true'] at h
  have hword := h.1
  rw [isWordChar, Bool.and_eq_true, Bool.not_eq_true', Bool.not_eq_true'] at hword
  have hreserved : c ∉ reserved := by simpa using hword.2
  exact ⟨h.1, fun heq => hreserved (heq ▸ by decide), hword.1, hreserved, h.2⟩

/-- Unescaping gives the word back. -/
theorem unescape_written (cs : List Char) : Text.unescape (cs.flatMap writeChar) = cs := by
  induction cs with
  | nil => rfl
  | cons c cs ih =>
    rw [List.flatMap_cons]
    rcases writeChar_cases c with ⟨rfl, heq⟩ | ⟨hplain, heq⟩ | ⟨-, hn, heq⟩ <;> rw [heq]
    · rw [List.cons_append, List.singleton_append, Text.unescape, ih]
      rfl
    · rw [List.singleton_append, Text.unescape_char (isPlain_cases hplain).2.1, ih]
    · rw [List.cons_append, List.singleton_append, Text.unescape, ih, Text.escaped, if_neg hn]

/-- A word goes on up to the space behind it. -/
theorem wordLength_written {cs : List Char} (h : '\r' ∉ cs) (more : List Char) :
    wordLength (cs.flatMap writeChar ++ ' ' :: more) = (cs.flatMap writeChar).length := by
  induction cs with
  | nil => rfl
  | cons c cs ih =>
    have hc : c ≠ '\r' := fun heq => h (heq ▸ List.mem_cons_self)
    specialize ih fun hmem => h (List.mem_cons_of_mem c hmem)
    rw [List.flatMap_cons]
    rcases writeChar_cases c with ⟨rfl, heq⟩ | ⟨hplain, heq⟩ | ⟨hfeed, -, heq⟩ <;> rw [heq]
    · rw [List.cons_append, List.singleton_append, List.cons_append, List.cons_append, wordLength,
        ih]
      rfl
    · have hlength : ∀ rest, wordLength (c :: rest) = wordLength rest + 1 := by
        intro rest
        rw [wordLength, if_pos (isPlain_cases hplain).1]
        rintro _ _ rfl
        exact absurd rfl (isPlain_cases hplain).2.1
      rw [List.singleton_append, List.cons_append, hlength, ih]
      rfl
    · rw [List.cons_append, List.singleton_append, List.cons_append, List.cons_append, wordLength,
        ih]
      simp [hc, hfeed]

/-- No operator begins with a character that starts a word. -/
theorem find?_operators {c : Char} (h : c = '\\' ∨ c ∉ reserved) (rest : List Char) :
    operators.find? (fun entry => entry.1.isPrefixOf (c :: rest)) = none := by
  have hheads : ∀ entry ∈ operators, ∃ d more, entry.1 = d :: more ∧ d ∈ reserved ∧ d ≠ '\\' := by
    simp [operators, reserved]
  refine List.find?_eq_none.mpr fun entry hentry => ?_
  obtain ⟨d, more, heq, hreserved, hne⟩ := hheads entry hentry
  have hd : d ≠ c := by
    rintro rfl
    exact h.elim hne fun hnot => hnot hreserved
  simp [heq, hd]

/-- The first character of what is written for a word. -/
theorem written_word {text : String} (h : Writable text) :
    ∃ c rest, (Token.word text).written = c :: rest ∧ Text.isSpace c = false ∧ isGap c = false ∧
      (c = '\\' ∨ c ∉ reserved) := by
  obtain ⟨d, ds, hds⟩ := List.exists_cons_of_ne_nil fun hnil =>
    h.1 (String.toList_eq_nil_iff.mp hnil)
  rw [Token.written, hds, List.flatMap_cons]
  rcases writeChar_cases d with ⟨-, heq⟩ | ⟨hplain, heq⟩ | ⟨-, -, heq⟩ <;> rw [heq]
  · exact ⟨_, _, rfl, rfl, rfl, .inl rfl⟩
  · obtain ⟨-, -, hgap, hreserved, hspace⟩ := isPlain_cases hplain
    exact ⟨_, _, rfl, hspace, hgap, .inr hreserved⟩
  · exact ⟨_, _, rfl, rfl, rfl, .inl rfl⟩

/-- What is written for a word is read as the word. -/
theorem ofText_word {text : String} (h : Writable text) (more : List Char) :
    ∃ c rest, (Token.word text).written = c :: rest ∧ Text.isSpace c = false ∧ isGap c = false ∧
      Lexeme.ofText c (rest ++ ' ' :: more) = (.token (.word text), rest.length) := by
  obtain ⟨c, rest, hwritten, hspace, hgap, hstart⟩ := written_word h
  have hlength := wordLength_written h.2 more
  have hword := unescape_written text.toList
  refine ⟨c, rest, hwritten, hspace, hgap, ?_⟩
  rw [Token.written] at hwritten
  rw [hwritten] at hlength hword
  rw [Lexeme.ofText, find?_operators hstart, ← List.cons_append, hlength]
  dsimp only [List.length_cons]
  rw [List.take_left, hword, String.ofList_toList]

/-- What is written for an operator is read as the operator. -/
theorem ofText_operator {u : Token} (h : ∀ text, u ≠ .word text) (more : List Char) :
    ∃ c rest, u.written = c :: rest ∧ Text.isSpace c = false ∧ isGap c = false ∧
      Lexeme.ofText c (rest ++ ' ' :: more) = (.token u, rest.length) := by
  cases u
  case word text => exact absurd rfl (h text)
  all_goals exact ⟨_, _, rfl, rfl, rfl, rfl⟩

/-- What is written for a token is read as the token. -/
theorem ofText_written {u : Token} (h : ∀ text, u = .word text → Writable text)
    (more : List Char) : ∃ c rest, u.written = c :: rest ∧ Text.isSpace c = false ∧
      isGap c = false ∧ Lexeme.ofText c (rest ++ ' ' :: more) = (.token u, rest.length) := by
  by_cases hword : ∃ text, u = .word text
  · obtain ⟨text, rfl⟩ := hword
    exact ofText_word (h text rfl) more
  · exact ofText_operator (fun text heq => hword ⟨text, heq⟩) more

/-- A token that is written in front of a space is read first. -/
theorem lexemesFrom_written {u : Token} (h : ∀ text, u = .word text → Writable text) (start : Nat)
    (more : List Char) : ∃ span next,
      lexemesFrom start (u.written ++ ' ' :: more) = ⟨.token u, span⟩ :: lexemesFrom next more := by
  obtain ⟨c, rest, hwritten, -, hgap, hlexeme⟩ := ofText_written h more
  have hspace : isGap ' ' = true := rfl
  rw [hwritten, List.cons_append, lexemesFrom, hgap, if_neg Bool.false_ne_true, hlexeme]
  dsimp only
  rw [List.drop_left, lexemesFrom, if_pos hspace]
  exact ⟨_, _, rfl⟩

/-- Tokens that are written are read back. -/
theorem lexed?_write {us : List Token} (h : WritableTokens us) :
    lexed? (write us) = some us := by
  have hread : ∀ start, unexpectedOf (lexemesFrom start (write us)) = [] ∧
      Tokens.values (tokensOf (lexemesFrom start (write us))) = us := by
    induction us with
    | nil =>
      intro start
      rw [write, List.flatMap_nil, lexemesFrom]
      exact ⟨rfl, rfl⟩
    | cons u us ih =>
      intro start
      obtain ⟨span, next, hfirst⟩ := lexemesFrom_written (u := u)
        (fun text heq => h text (heq ▸ List.mem_cons_self)) start (write us)
      obtain ⟨hnone, hvalues⟩ := ih (fun text ht => h text (List.mem_cons_of_mem u ht)) next
      have hwrite : write (u :: us) = u.written ++ ' ' :: write us := by
        rw [write, List.flatMap_cons, List.append_assoc]
        rfl
      rw [hwrite, hfirst]
      exact ⟨hnone, congrArg (u :: ·) hvalues⟩
  rw [lexed?, lexemes, if_pos (hread 0).1, (hread 0).2]

/-! ### Tokens of trees -/

/-- The word of a number. -/
def numeral (n : Int64) : String :=
  String.ofList (Decimal.ofWord n)

/-- The tokens of a tree that may be missing. -/
def optionalTokens {α : Type} (tokens : α → List Token) : Option α → List Token
  | none => []
  | some a => tokens a

mutual

/-- Tokens that spell a primary. -/
def Primary.tokens : Primary → List Token
  | .atom name => [.word name]
  | .integer n =>
    if n < 0 then [.hash, .minus, .word (numeral (-n))] else [.hash, .word (numeral n)]
  | .integerOf noun => [.hash, .word noun]
  | .deref noun => [.at, .word noun]
  | .verbCall noun verb => optionalTokens (fun noun => [.word noun]) noun ++ [.colon, .word verb]
  | .group e => .openParen :: e.tokens ++ [.closeParen]

/-- Tokens that spell an item. -/
def Item.tokens : Item → List Token
  | .primary p => p.tokens
  | .invoke callee => callee.tokens ++ [.openParen, .closeParen]
  | .apply callee arguments => callee.tokens ++ .openParen :: arguments.tokens ++ [.closeParen]

/-- Tokens that spell a term. -/
def Term.tokens : Term → List Token
  | .item i => i.tokens
  | .join i rest => i.tokens ++ .comma :: rest.tokens

/-- Tokens that spell an expression. -/
def Expr.tokens : Expr → List Token
  | .term t => t.tokens
  | .binary left op right => left.tokens ++ op.sign :: right.tokens

end

/-- One of the tokens of a comparison. -/
def Comparison.sign (c : Comparison) : Token :=
  c.signs.headD .assign

/-- Tokens that spell a condition. -/
def Condition.tokens : Condition → List Token
  | .always => []
  | .compare subject c value =>
    optionalTokens Expr.tokens subject ++ c.sign :: optionalTokens Expr.tokens value
  | .bare e => e.tokens

/-- Tokens that spell an action. -/
def Action.tokens : Action → List Token
  | .change target c value =>
    optionalTokens Expr.tokens target ++ c.sign :: optionalTokens Expr.tokens value
  | .bare e => e.tokens

/-- A single word spells a name. -/
theorem spelledName_word (name : String) : SpelledName name [.word name] := by
  have hname := SpelledName.words name []
  rwa [String.intercalate_singleton] at hname

theorem toWord?_numeral (n : Int64) : Decimal.toWord? (numeral n).toList = some n := by
  rw [numeral, String.toList_ofList, Decimal.toWord?_ofWord]

mutual

theorem spelledBy_primaryTokens : ∀ p : Primary, p.SpelledBy p.tokens
  | .atom name => .atom (spelledName_word name)
  | .integer n => by
    rw [Primary.tokens]
    split
    next =>
      have hnegative := Primary.SpelledBy.negative (toWord?_numeral (-n))
      rwa [Int64.neg_neg] at hnegative
    next => exact .integer (toWord?_numeral n)
  | .integerOf noun => .integerOf (spelledName_word noun)
  | .deref noun => .deref (spelledName_word noun)
  | .verbCall none verb => .verbCall rfl (spelledName_word verb)
  | .verbCall (some noun) verb => .verbCall (spelledName_word noun) (spelledName_word verb)
  | .group e => .group (spelledBy_exprTokens e)

theorem spelledBy_itemTokens : ∀ i : Item, i.SpelledBy i.tokens
  | .primary p => .primary (spelledBy_primaryTokens p)
  | .invoke callee => .invoke (spelledBy_primaryTokens callee)
  | .apply callee arguments =>
    .apply (spelledBy_primaryTokens callee) (spelledBy_exprTokens arguments)

theorem spelledBy_termTokens : ∀ t : Term, t.SpelledBy t.tokens
  | .item i => .item (spelledBy_itemTokens i)
  | .join i rest => .join (spelledBy_itemTokens i) (spelledBy_termTokens rest)

theorem spelledBy_exprTokens : ∀ e : Expr, e.SpelledBy e.tokens
  | .term t => .term (spelledBy_termTokens t)
  | .binary left _ right => .binary (spelledBy_exprTokens left) (spelledBy_termTokens right)

end

theorem spelledBy_optionalTokens (o : Option Expr) :
    SpelledOptional Expr.SpelledBy o (optionalTokens Expr.tokens o) := by
  cases o with
  | none => rfl
  | some e => exact spelledBy_exprTokens e

/-- Every condition but the blank one is spelled by its tokens. -/
theorem Condition.spelledBy_tokens {c : Condition} (h : c ≠ .always) : c.SpelledBy c.tokens := by
  cases c with
  | always => exact absurd rfl h
  | compare subject c value =>
    refine .compare (spelledBy_optionalTokens subject) ?_ (spelledBy_optionalTokens value)
    cases c <;> exact List.mem_cons_self
  | bare e => exact .bare (spelledBy_exprTokens e)

/-- Every action is spelled by its tokens. -/
theorem Action.spelledBy_tokens (a : Action) : a.SpelledBy a.tokens := by
  cases a with
  | change target c value =>
    exact .change (spelledBy_optionalTokens target) (spelledBy_optionalTokens value)
  | bare e => exact .bare (spelledBy_exprTokens e)

/-! ### Trees that can be written -/

/-- Whether the names in a leaf can be written. -/
def Primary.Named : Primary → Prop
  | .atom name | .integerOf name | .deref name => Writable name
  | .verbCall noun verb => (∀ name ∈ noun, Writable name) ∧ Writable verb
  | .integer _ | .group _ => True

namespace WritableTokens

variable {us vs : List Token}

theorem nil : WritableTokens [] := by
  intro text ht
  cases ht

theorem append (hus : WritableTokens us) (hvs : WritableTokens vs) : WritableTokens (us ++ vs) :=
  fun text ht => (List.mem_append.mp ht).elim (hus text) (hvs text)

theorem word {text : String} (h : Writable text) (hus : WritableTokens us) :
    WritableTokens (.word text :: us) := by
  intro other ht
  rcases List.mem_cons.mp ht with heq | ht
  · exact Token.word.inj heq ▸ h
  · exact hus other ht

/-- A token that is no word. -/
theorem cons {t : Token} (h : ∀ text, t ≠ .word text) (hus : WritableTokens us) :
    WritableTokens (t :: us) :=
  fun text ht => hus text ((List.mem_cons.mp ht).resolve_left fun heq => h text heq.symm)

end WritableTokens

theorem writable_numeral (n : Int64) : Writable (numeral n) := by
  refine ⟨fun hempty => ?_, fun hreturn => ?_⟩
  · have hread := toWord?_numeral n
    rw [hempty] at hread
    cases hread
  · rw [numeral, String.toList_ofList] at hreturn
    exact (Decimal.mem_ofInt hreturn).elim (by decide) (by decide)

mutual

theorem writable_primaryTokens : ∀ p : Primary, p.Leaves Primary.Named → WritableTokens p.tokens
  | .atom _, h => .word h .nil
  | .integer n, _ => by
    rw [Primary.tokens]
    split
    · exact .cons (by simp) (.cons (by simp) (.word (writable_numeral _) .nil))
    · exact .cons (by simp) (.word (writable_numeral _) .nil)
  | .integerOf _, h => .cons (by simp) (.word h .nil)
  | .deref _, h => .cons (by simp) (.word h .nil)
  | .verbCall none _, h => .cons (by simp) (.word h.2 .nil)
  | .verbCall (some _) _, h => .word (h.1 _ rfl) (.cons (by simp) (.word h.2 .nil))
  | .group e, h => .cons (by simp) ((writable_exprTokens e h).append (.cons (by simp) .nil))

theorem writable_itemTokens : ∀ i : Item, i.Leaves Primary.Named → WritableTokens i.tokens
  | .primary p, h => writable_primaryTokens p h
  | .invoke callee, h =>
    (writable_primaryTokens callee h).append (.cons (by simp) (.cons (by simp) .nil))
  | .apply callee arguments, h =>
    ((writable_primaryTokens callee h.1).append
      (.cons (by simp) (writable_exprTokens arguments h.2))).append (.cons (by simp) .nil)

theorem writable_termTokens : ∀ t : Term, t.Leaves Primary.Named → WritableTokens t.tokens
  | .item i, h => writable_itemTokens i h
  | .join i rest, h =>
    (writable_itemTokens i h.1).append (.cons (by simp) (writable_termTokens rest h.2))

theorem writable_exprTokens : ∀ e : Expr, e.Leaves Primary.Named → WritableTokens e.tokens
  | .term t, h => writable_termTokens t h
  | .binary left op right, h => by
    refine (writable_exprTokens left h.1).append (.cons ?_ (writable_termTokens right h.2))
    cases op <;> simp [Operator.sign]

end

theorem writable_optionalTokens (o : Option Expr) (h : ∀ e ∈ o, e.Leaves Primary.Named) :
    WritableTokens (optionalTokens Expr.tokens o) := by
  cases o with
  | none => exact .nil
  | some e => exact writable_exprTokens e (h e rfl)

theorem Condition.writable_tokens {c : Condition} (h : c.Leaves Primary.Named) :
    WritableTokens c.tokens := by
  cases c with
  | always => exact .nil
  | compare subject c value =>
    refine (writable_optionalTokens subject h.1).append
      (.cons ?_ (writable_optionalTokens value h.2))
    cases c <;> simp [Comparison.sign, Comparison.signs]
  | bare e => exact writable_exprTokens e h

theorem Action.writable_tokens {a : Action} (h : a.Leaves Primary.Named) :
    WritableTokens a.tokens := by
  cases a with
  | change target c value =>
    refine (writable_optionalTokens target h.1).append
      (.cons ?_ (writable_optionalTokens value h.2))
    cases c <;> simp [Change.sign]
  | bare e => exact writable_exprTokens e h

/-! ### Texts -/

/-- What a whole text is read as is what a parser makes of its tokens. -/
theorem parseAll_eq_ok_iff {α : Type} {p : Parser α} {cs : List Char} {a : α} :
    parseAll p cs = .ok a ↔
      unexpectedOf (lexemes cs) = [] ∧
        ∃ rest, (p (tokensOf (lexemes cs))).result = some (a, rest) := by
  rw [parseAll]
  dsimp only
  split
  next c more hfound => simp [hfound]
  next hnone =>
    rw [hnone]
    split
    next b rest hread =>
      rw [hread]
      simp
    next hread =>
      rw [hread]
      simp

/-- What is read of a text is spelled by its tokens. -/
theorem spelled_of_parseAll {α : Type} {p : Parser α} {P : α → List Token → Prop}
    (hp : ∀ {ts rest : Tokens} {a : α}, (p ts).result = some (a, rest) → P a ts.values)
    {cs : List Char} {a : α} (h : parseAll p cs = .ok a) : ∃ us, lexed? cs = some us ∧ P a us := by
  obtain ⟨hnone, rest, hread⟩ := parseAll_eq_ok_iff.mp h
  exact ⟨_, by rw [lexed?, if_pos hnone], hp hread⟩

/-- What the tokens of a text spell is read of it. -/
theorem parseAll_of_lexed? {α : Type} {p : Parser α} {cs : List Char} {us : List Token} {a : α}
    (h : lexed? cs = some us)
    (hp : ∀ ts : Tokens, ts.values = us → (p ts).result = some (a, [])) :
    parseAll p cs = .ok a := by
  rw [lexed?] at h
  split at h
  next hnone => exact parseAll_eq_ok_iff.mpr ⟨hnone, [], hp _ (Option.some.inj h)⟩
  next => cases h

/-- A condition that its tokens spell is read. -/
theorem Condition.ofText_spelled {body : List Char} {us : List Token} {c : Condition}
    (hbody : Text.isBlank body = false) (hus : lexed? body = some us) (hc : c.SpelledBy us)
    (hleaves : c.Leaves Primary.Unnumbered) : Condition.ofText body = .ok c := by
  rw [Condition.ofText, hbody, if_neg Bool.false_ne_true]
  refine parseAll_of_lexed? hus fun ts hts => Parser.result_condition ?_ hleaves
  rw [hts]
  exact hc

/-- An action that its tokens spell is read. -/
theorem Instruction.ofText_spelled {body : List Char} {us : List Token} {a : Action}
    (hbody : Text.isBlank (splitBreaks body).1 = false)
    (hus : lexed? (splitBreaks body).1 = some us) (ha : a.SpelledBy us)
    (hleaves : a.Leaves Primary.Unnumbered) :
    Instruction.ofText body = .ok ⟨some a, (splitBreaks body).2⟩ := by
  have hread : parseAll Parser.action (splitBreaks body).1 = .ok a := by
    refine parseAll_of_lexed? hus fun ts hts => Parser.result_action ?_ hleaves
    rw [hts]
    exact ha
  rw [Instruction.ofText]
  dsimp only
  rw [hbody, if_neg Bool.false_ne_true, hread]
  rfl

/-- What is split off the end of an instruction are white space and breaks. -/
theorem splitBreaks_eq (body : List Char) : Text.trimEnd body =
    (splitBreaks body).1 ++ List.replicate (splitBreaks body).2 '<' := by
  rw [splitBreaks]
  generalize Text.trimEnd body = trimmed
  have hmarks : trimmed.reverse.takeWhile (· == '<') =
      List.replicate (trimmed.reverse.takeWhile (· == '<')).length '<' :=
    List.eq_replicate_iff.mpr ⟨rfl, fun c hc =>
      eq_of_beq (List.all_eq_true.mp List.all_takeWhile c hc)⟩
  generalize hn : (trimmed.reverse.takeWhile (· == '<')).length = n at hmarks ⊢
  have hsplit : trimmed =
      (trimmed.reverse.dropWhile (· == '<')).reverse ++ List.replicate n '<' := by
    rw [← List.reverse_replicate, ← hmarks, ← List.reverse_append, List.takeWhile_append_dropWhile,
      List.reverse_reverse]
  generalize (trimmed.reverse.dropWhile (· == '<')).reverse = front at hsplit
  have hfront : trimmed.take (trimmed.length - n) = front := by
    rw [hsplit, List.length_append, List.length_replicate, Nat.add_sub_cancel, List.take_left]
  rw [hfront]
  split
  next hescape =>
    rw [List.append_assoc, List.singleton_append, ← List.replicate_succ,
      Nat.sub_add_cancel hescape.2]
    exact hsplit
  next => exact hsplit

theorem prefix_splitBreaks (body : List Char) : (splitBreaks body).1 <+: body :=
  .trans ⟨_, (splitBreaks_eq body).symm⟩ (Text.prefix_trimEnd body)

/-- In front of breaks, what is written ends with the space behind its last token. -/
theorem splitBreaks_write (us : List Token) (breaks : Nat) :
    splitBreaks (write us ++ List.replicate (breaks + 1) '<') = (write us, breaks + 1) := by
  have hlast : write us = [] ∨ ∃ front, write us = front ++ [' '] := by
    rcases List.eq_nil_or_concat us with rfl | ⟨us, u, rfl⟩
    · exact .inl rfl
    · refine .inr ⟨write us ++ u.written, ?_⟩
      simp [write]
  have hreverse : (write us ++ List.replicate (breaks + 1) '<').reverse =
      List.replicate (breaks + 1) '<' ++ (write us).reverse := by
    rw [List.reverse_append, List.reverse_replicate]
  have htrim : Text.trimEnd (write us ++ List.replicate (breaks + 1) '<') =
      write us ++ List.replicate (breaks + 1) '<' := by
    rw [Text.trimEnd, hreverse, List.replicate_succ, List.cons_append, List.dropWhile_cons_of_neg
      (by decide), ← List.cons_append, ← List.replicate_succ, ← hreverse, List.reverse_reverse]
  have hmarks :
      ((write us ++ List.replicate (breaks + 1) '<').reverse.takeWhile (· == '<')).length =
        breaks + 1 := by
    have hstop : (write us).reverse.takeWhile (· == '<') = [] := by
      rcases hlast with hnil | ⟨front, hfront⟩
      · rw [hnil]
        rfl
      · rw [hfront, List.reverse_append]
        rfl
    rw [hreverse, List.takeWhile_append_of_pos (by simp), hstop, List.append_nil,
      List.length_replicate]
  have hescape : (write us).getLast? ≠ some '\\' := by
    rcases hlast with hnil | ⟨front, hfront⟩
    · rw [hnil]
      simp
    · rw [hfront, List.getLast?_append]
      simp
  rw [splitBreaks, htrim, hmarks, List.length_append, List.length_replicate, Nat.add_sub_cancel,
    List.take_left, if_neg fun h => hescape h.1]

/-- What is written for some tokens shows. -/
theorem isBlank_write {us : List Token} (hne : us ≠ []) (h : WritableTokens us) :
    Text.isBlank (write us) = false := by
  obtain ⟨u, us, rfl⟩ := List.exists_cons_of_ne_nil hne
  obtain ⟨c, rest, hwritten, hspace, -, -⟩ := ofText_written (u := u)
    (fun text heq => h text (heq ▸ List.mem_cons_self)) []
  rw [write, List.flatMap_cons, hwritten]
  simp [Text.isBlank, hspace]

/-- A tree that is spelled is spelled by some token. -/
theorem Condition.SpelledBy.ne_nil {c : Condition} {us : List Token} (h : c.SpelledBy us)
    (hleaves : c.Leaves Primary.Unnumbered) : us ≠ [] := by
  rintro rfl
  have hread : (Parser.condition []).result = some (c, []) := Parser.result_condition h hleaves
  have hnone : (Parser.condition []).result = none := rfl
  rw [hnone] at hread
  cases hread

theorem Action.SpelledBy.ne_nil {a : Action} {us : List Token} (h : a.SpelledBy us)
    (hleaves : a.Leaves Primary.Unnumbered) : us ≠ [] := by
  rintro rfl
  have hread : (Parser.action []).result = some (a, []) := Parser.result_action h hleaves
  have hnone : (Parser.action []).result = none := rfl
  rw [hnone] at hread
  cases hread

/-- **The parsers accept exactly their grammar.** Of a condition or an action that is read of a
text, the tokens of the text spell the tree, and none is left. Tokens that spell a tree are read as
it, if no noun behind `#` begins with a numeral; so is a text with such tokens, unless it is blank.
Every tree is spelled by some tokens, and written in some text if its names can be. -/
theorem ofText_grammar :
    -- what is read is spelled
    (∀ body c, Condition.ofText body = .ok c → c ≠ .always →
      ∃ us, lexed? body = some us ∧ c.SpelledBy us) ∧
    (∀ body a breaks, Instruction.ofText body = .ok ⟨some a, breaks⟩ →
      Text.trimEnd body = (splitBreaks body).1 ++ List.replicate breaks '<' ∧
      ∃ us, lexed? (splitBreaks body).1 = some us ∧ a.SpelledBy us) ∧
    -- what is spelled is read
    (∀ (c : Condition) (ts : Tokens), c.Leaves Primary.Unnumbered → c.SpelledBy ts.values →
      (Parser.condition ts).result = some (c, [])) ∧
    (∀ (a : Action) (ts : Tokens), a.Leaves Primary.Unnumbered → a.SpelledBy ts.values →
      (Parser.action ts).result = some (a, [])) ∧
    (∀ (c : Condition) (body : List Char) (us : List Token), c.Leaves Primary.Unnumbered →
      Text.isBlank body = false → lexed? body = some us → c.SpelledBy us →
      Condition.ofText body = .ok c) ∧
    (∀ (a : Action) (body : List Char) (us : List Token), a.Leaves Primary.Unnumbered →
      Text.isBlank (splitBreaks body).1 = false → lexed? (splitBreaks body).1 = some us →
      a.SpelledBy us → Instruction.ofText body = .ok ⟨some a, (splitBreaks body).2⟩) ∧
    -- every tree is spelled, and can be written
    (∀ c : Condition, c ≠ .always → c.SpelledBy c.tokens) ∧
    (∀ a : Action, a.SpelledBy a.tokens) ∧
    (∀ c : Condition, c ≠ .always → c.Leaves Primary.Unnumbered → c.Leaves Primary.Named →
      Condition.ofText (write c.tokens) = .ok c) ∧
    ∀ (a : Action) (breaks : Nat), a.Leaves Primary.Unnumbered → a.Leaves Primary.Named →
      Instruction.ofText (write a.tokens ++ List.replicate (breaks + 1) '<') =
        .ok ⟨some a, breaks + 1⟩ := by
  refine ⟨fun body c hread halways => ?_, fun body a breaks hread => ?_,
    fun c ts hleaves hc => Parser.result_condition hc hleaves,
    fun a ts hleaves ha => Parser.result_action ha hleaves,
    fun c body us hleaves hbody hus hc => Condition.ofText_spelled hbody hus hc hleaves,
    fun a body us hleaves hbody hus ha => Instruction.ofText_spelled hbody hus ha hleaves,
    fun c => Condition.spelledBy_tokens, Action.spelledBy_tokens,
    fun c halways hleaves hnamed => ?_, fun a breaks hleaves hnamed => ?_⟩
  · rw [Condition.ofText] at hread
    split at hread
    · cases hread
      exact absurd rfl halways
    · exact spelled_of_parseAll Parser.reads_condition hread
  · have hsplit := splitBreaks_eq body
    rw [Instruction.ofText] at hread
    dsimp only at hread
    split at hread
    · cases hread
    · cases haction : parseAll Parser.action (splitBreaks body).1 with
      | error es =>
        rw [haction] at hread
        cases hread
      | ok a' =>
        rw [haction] at hread
        cases hread
        exact ⟨hsplit, spelled_of_parseAll Parser.reads_action haction⟩
  · have hspelled := Condition.spelledBy_tokens halways
    have hwritable := Condition.writable_tokens hnamed
    exact Condition.ofText_spelled (isBlank_write (hspelled.ne_nil hleaves) hwritable)
      (lexed?_write hwritable) hspelled hleaves
  · have hspelled := a.spelledBy_tokens
    have hwritable := Action.writable_tokens hnamed
    have hsplit := splitBreaks_write a.tokens breaks
    generalize write a.tokens ++ List.replicate (breaks + 1) '<' = body at hsplit ⊢
    have hblank : Text.isBlank (splitBreaks body).1 = false := by
      rw [hsplit]
      exact isBlank_write (hspelled.ne_nil hleaves) hwritable
    have hlexed : lexed? (splitBreaks body).1 = some a.tokens := by
      rw [hsplit]
      exact lexed?_write hwritable
    have hread := Instruction.ofText_spelled hblank hlexed hspelled hleaves
    rwa [hsplit] at hread

/-- A condition with a call, whose argument is dereferenced, and a negative number. -/
def sizeCondition : Condition :=
  .compare (some (.term (.item (.apply (.atom "Size") (.ofPrimary (.deref "old basket"))))))
    .atMost (some (.ofPrimary (.integer (-3))))

/-- The condition is read as an author may write it, and as its tokens are written. -/
theorem ofText_grammar_size :
    sizeCondition.Leaves Primary.Unnumbered ∧ sizeCondition.Leaves Primary.Named ∧
    Condition.ofText "Size(@old basket)<=#-3".toList = .ok sizeCondition ∧
    (∃ us, lexed? "Size(@old basket)<=#-3".toList = some us ∧ sizeCondition.SpelledBy us) ∧
    String.ofList (write sizeCondition.tokens) = "Size ( @ old\\ basket ) <= # - 3 " ∧
    Condition.ofText (write sizeCondition.tokens) = .ok sizeCondition := by
  have hunnumbered : sizeCondition.Leaves Primary.Unnumbered := by
    simp [sizeCondition, Condition.Leaves, Expr.ofPrimary, Expr.Leaves, Term.Leaves, Item.Leaves,
      Primary.Leaves, Primary.Unnumbered]
  have hnamed : sizeCondition.Leaves Primary.Named := by
    simp [sizeCondition, Condition.Leaves, Expr.ofPrimary, Expr.Leaves, Term.Leaves, Item.Leaves,
      Primary.Leaves, Primary.Named, Writable]
  have hread : Condition.ofText "Size(@old basket)<=#-3".toList = .ok sizeCondition := by
    decide +kernel
  have halways : sizeCondition ≠ .always := Condition.noConfusion
  obtain ⟨hspelled, -, -, -, -, -, -, -, hwritten, -⟩ := ofText_grammar
  exact ⟨hunnumbered, hnamed, hread, hspelled _ _ hread halways, by decide +kernel,
    hwritten _ halways hunnumbered hnamed⟩

end Gamebook.Script
