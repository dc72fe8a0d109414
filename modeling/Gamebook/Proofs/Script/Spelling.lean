import Gamebook.Proofs.Script.Results
import Gamebook.Script.Chain

/-!
# What the grammar spells

The grammar, as a relation between trees and rows of tokens. It does not say in which order anything
is tried, or how far a name goes: it only says of a row whether it spells a tree.

Whatever the parsers read is spelled by the tokens they took (`reads_condition`, `reads_action`). A
condition or an action is read to the end, so none of its tokens is left.
-/

namespace Gamebook.Script

/-! ### The grammar -/

/-- One or more words spell a name; they are joined by single spaces. -/
inductive SpelledName : String → List Token → Prop
  | words (first : String) (more : List String) :
      SpelledName (" ".intercalate (first :: more)) (.word first :: more.map .word)

/-- The token of an operator. -/
def Operator.sign : Operator → Token
  | .union => .plus
  | .difference => .minus
  | .intersect => .slash
  | .concat => .star

/-- The tokens of a comparison. -/
def Comparison.signs : Comparison → List Token
  | .contains => [.addAssign, .assign]
  | .notContains => [.removeAssign]
  | .equals => [.equals]
  | .notEquals => [.notEquals]
  | .atMost => [.atMost]
  | .atLeast => [.atLeast]
  | .more => [.more]
  | .less => [.less]

/-- The token of a change. -/
def Change.sign : Change → Token
  | .add => .addAssign
  | .remove => .removeAssign
  | .assign => .assign

mutual

/-- Whether some tokens spell a primary. -/
inductive Primary.SpelledBy : Primary → List Token → Prop
  | atom {name : String} {us : List Token} : SpelledName name us → Primary.SpelledBy (.atom name) us
  | integer {word : String} {n : Int64} : Decimal.toWord? word.toList = some n →
      Primary.SpelledBy (.integer n) [.hash, .word word]
  | negative {word : String} {n : Int64} : Decimal.toWord? word.toList = some n →
      Primary.SpelledBy (.integer (-n)) [.hash, .minus, .word word]
  | integerOf {noun : String} {us : List Token} : SpelledName noun us →
      Primary.SpelledBy (.integerOf noun) (.hash :: us)
  | deref {noun : String} {us : List Token} : SpelledName noun us →
      Primary.SpelledBy (.deref noun) (.at :: us)
  | verbCall {noun : Option String} {verb : String} {us vs : List Token} :
      SpelledOptional SpelledName noun us → SpelledName verb vs →
      Primary.SpelledBy (.verbCall noun verb) (us ++ .colon :: vs)
  | group {e : Expr} {us : List Token} : Expr.SpelledBy e us →
      Primary.SpelledBy (.group e) (.openParen :: us ++ [.closeParen])

/-- Whether some tokens spell an item. -/
inductive Item.SpelledBy : Item → List Token → Prop
  | primary {p : Primary} {us : List Token} : Primary.SpelledBy p us →
      Item.SpelledBy (.primary p) us
  | invoke {callee : Primary} {us : List Token} : Primary.SpelledBy callee us →
      Item.SpelledBy (.invoke callee) (us ++ [.openParen, .closeParen])
  | apply {callee : Primary} {arguments : Expr} {us vs : List Token} :
      Primary.SpelledBy callee us → Expr.SpelledBy arguments vs →
      Item.SpelledBy (.apply callee arguments) (us ++ .openParen :: vs ++ [.closeParen])

/-- Whether some tokens spell a term. -/
inductive Term.SpelledBy : Term → List Token → Prop
  | item {i : Item} {us : List Token} : Item.SpelledBy i us → Term.SpelledBy (.item i) us
  | join {i : Item} {rest : Term} {us vs : List Token} : Item.SpelledBy i us →
      Term.SpelledBy rest vs → Term.SpelledBy (.join i rest) (us ++ .comma :: vs)

/-- Whether some tokens spell an expression. -/
inductive Expr.SpelledBy : Expr → List Token → Prop
  | term {t : Term} {us : List Token} : Term.SpelledBy t us → Expr.SpelledBy (.term t) us
  | binary {left : Expr} {op : Operator} {right : Term} {us vs : List Token} :
      Expr.SpelledBy left us → Term.SpelledBy right vs →
      Expr.SpelledBy (.binary left op right) (us ++ op.sign :: vs)

end

/-- Whether some tokens spell a condition. The blank condition has no tokens at all. -/
inductive Condition.SpelledBy : Condition → List Token → Prop
  | compare {subject value : Option Expr} {c : Comparison} {sign : Token} {us vs : List Token} :
      SpelledOptional Expr.SpelledBy subject us → sign ∈ c.signs →
      SpelledOptional Expr.SpelledBy value vs →
      Condition.SpelledBy (.compare subject c value) (us ++ sign :: vs)
  | bare {e : Expr} {us : List Token} : e.SpelledBy us → Condition.SpelledBy (.bare e) us

/-- Whether some tokens spell an action. -/
inductive Action.SpelledBy : Action → List Token → Prop
  | change {target value : Option Expr} {c : Change} {us vs : List Token} :
      SpelledOptional Expr.SpelledBy target us → SpelledOptional Expr.SpelledBy value vs →
      Action.SpelledBy (.change target c value) (us ++ c.sign :: vs)
  | bare {e : Expr} {us : List Token} : e.SpelledBy us → Action.SpelledBy (.bare e) us

/-! ### What the parsers take -/

namespace Parser

/-- Words one after the other are what they are. -/
theorem values_of_words {words : List String} {us : List Token}
    (h : SpelledRow (fun text us => us = [.word text]) words us) : us = words.map .word := by
  induction h with
  | nil => rfl
  | cons hword _ ih => rw [hword, ih, List.map_cons, List.singleton_append]

theorem reads_name : name.Reads SpelledName := by
  refine .named _ (Reads.word.bind fun first us hfirst => Reads.word.many.bind fun more vs hmore =>
    .pure ?_)
  rw [hfirst, values_of_words hmore, List.append_nil]
  exact .words first more

/-- A word, with a minus sign in front or not. -/
theorem reads_sign : Reads (do return ((← optional (token .minus)).isSome, ← word) :
    Parser (Bool × String)) fun r us =>
      us = (if r.1 then [.minus, .word r.2] else [.word r.2]) := by
  refine (Reads.token .minus).optional.bind fun sign us hsign => Reads.word.bind
    fun text vs htext => .pure ?_
  rw [htext, List.append_nil]
  cases sign with
  | none => rw [hsign]; rfl
  | some => rw [hsign]; rfl

/-- The numeral of a word, with a minus sign in front or not. -/
theorem reads_signedNumeral : signedNumeral.Reads fun n us =>
    Primary.SpelledBy (.integer n) (.hash :: us) := by
  intro ts n rest h
  rw [signedNumeral] at h
  dsimp only at h
  split at h
  next => cases h
  next negative digits more hmore =>
    split at h
    next m hm =>
      cases h
      obtain ⟨us, hts, hus⟩ := reads_sign ts _ _ hmore
      refine ⟨us, hts, ?_⟩
      rw [hus]
      cases negative with
      | false => exact .integer hm
      | true => exact .negative hm
    next => cases h

section

variable {e : Parser Expr} (he : e.Reads Expr.SpelledBy)

include he

theorem reads_primary : (primary e).Reads Primary.SpelledBy := by
  have hderef : deref.Reads Primary.SpelledBy := by
    refine .named _ ((Reads.token _).bind fun _ us hat => reads_name.bind fun noun vs hnoun =>
      .pure ?_)
    rw [hat, List.append_nil]
    exact .deref hnoun
  have hnumeric : numeric.Reads Primary.SpelledBy := by
    refine .named _ ((Reads.token _).bind fun _ us hhash => .orElse
      (reads_signedNumeral.bind fun n vs hn => .pure ?_)
      (reads_name.bind fun noun vs hnoun => .pure ?_))
    · rw [hhash, List.append_nil]
      exact hn
    · rw [hhash, List.append_nil]
      exact .integerOf hnoun
  have hcall : verbCall.Reads Primary.SpelledBy := by
    refine .named _ (reads_name.optional.bind fun noun us hnoun => (Reads.token _).bind
      fun _ vs hcolon => reads_name.bind fun verb ws hverb => .pure ?_)
    rw [hcolon, List.append_nil]
    exact .verbCall hnoun hverb
  have hgroup : (group e).Reads Primary.SpelledBy := by
    refine (Reads.token _).bind fun _ us hopen => he.bind fun x vs hx => (Reads.token _).bind
      fun _ ws hclose => .pure ?_
    rw [hopen, hclose, List.append_nil, ← List.append_assoc]
    exact .group hx
  refine .orElse hderef (.orElse hnumeric (.orElse hcall (.orElse hgroup
    (reads_name.bind fun name us hname => .pure ?_))))
  rw [List.append_nil]
  exact .atom hname

theorem reads_item : (item e).Reads Item.SpelledBy := by
  have harguments : (arguments e).Reads fun o us =>
      ∃ vs, us = .openParen :: vs ++ [.closeParen] ∧ SpelledOptional Expr.SpelledBy o vs := by
    refine .named _ ((Reads.token _).bind fun _ us hopen => he.optional.bind fun o vs ho =>
      (Reads.token _).bind fun _ ws hclose => .pure ⟨vs, ?_, ho⟩)
    rw [hopen, hclose, List.append_nil]
    rfl
  refine (reads_primary he).bind fun p us hp => harguments.optional.bind fun o vs ho => ?_
  match o, ho with
  | none, hvs =>
    refine .pure ?_
    rw [show vs = [] from hvs, List.append_nil, List.append_nil]
    exact .primary hp
  | some none, ⟨ws, hvs, hws⟩ =>
    refine .pure ?_
    rw [hvs, show ws = [] from hws, List.append_nil]
    exact .invoke hp
  | some (some x), ⟨ws, hvs, hx⟩ =>
    refine .pure ?_
    rw [hvs, List.append_nil, ← List.append_assoc]
    exact .apply hp hx

omit he in
/-- A first item and others behind commas spell a term. -/
theorem spelledBy_ofItems {first : Item} {more : List Item} {us vs : List Token}
    (hfirst : first.SpelledBy us)
    (hmore : SpelledRow (fun i us => ∃ ws, us = .comma :: ws ∧ Item.SpelledBy i ws) more vs) :
    (Term.ofItems first more).SpelledBy (us ++ vs) := by
  induction hmore generalizing first us with
  | nil =>
    rw [List.append_nil]
    exact .item hfirst
  | cons hnext _ ih =>
    obtain ⟨ws, rfl, hws⟩ := hnext
    exact .join hfirst (ih hws)

theorem reads_term : (term e).Reads Term.SpelledBy := by
  have hnext : Reads (do token .comma; item e) fun i us =>
      ∃ ws, us = .comma :: ws ∧ Item.SpelledBy i ws := by
    refine (Reads.token _).bind fun _ us hcomma => (reads_item he).mono fun i vs hi => ⟨vs, ?_, hi⟩
    rw [hcomma]
    rfl
  refine (reads_item he).bind fun first us hfirst => hnext.many.bind fun more vs hmore => .pure ?_
  rw [List.append_nil]
  exact spelledBy_ofItems hfirst hmore

omit he in
/-- An expression and further operations spell the expression that they make up. -/
theorem spelledBy_ofTerms {rest : List (Operator × Term)} {vs : List Token}
    (hrest : SpelledRow (fun (r : Operator × Term) us =>
      ∃ ws, us = r.1.sign :: ws ∧ r.2.SpelledBy ws) rest vs) :
    ∀ {x : Expr} {us : List Token}, x.SpelledBy us →
      (rest.foldl (fun x (op, t) => .binary x op t) x).SpelledBy (us ++ vs) := by
  induction hrest with
  | nil =>
    intro x us hx
    rw [List.append_nil]
    exact hx
  | @cons r rest us' vs' hr _ ih =>
    intro x us hx
    obtain ⟨ws, rfl, hws⟩ := hr
    rw [← List.append_assoc]
    exact ih (.binary hx hws)

theorem reads_terms : (terms e).Reads Expr.SpelledBy := by
  have hoperator : operator.Reads fun op us => us = [op.sign] := by
    refine .satisfy fun t op ht => ?_
    cases t <;> cases ht <;> rfl
  have hnext : Reads (do let op ← operator; return (op, ← term e)) fun r us =>
      ∃ ws, us = r.1.sign :: ws ∧ Term.SpelledBy r.2 ws := by
    refine hoperator.bind fun op us hop => (reads_term he).bind fun t vs ht => .pure ⟨vs, ?_, ht⟩
    rw [hop, List.append_nil]
    rfl
  refine (reads_term he).bind fun first us hfirst => hnext.many.bind fun rest vs hrest => .pure ?_
  rw [List.append_nil]
  exact spelledBy_ofTerms hrest (.term hfirst)

end

/-- However deep groups may be nested, what is read is spelled. -/
theorem reads_expressionOfDepth (depth : Nat) : (expressionOfDepth depth).Reads Expr.SpelledBy := by
  induction depth with
  | zero =>
    intro ts e rest h
    cases h
  | succ depth ih => exact reads_terms ih

theorem reads_expression : expression.Reads Expr.SpelledBy :=
  fun ts => reads_expressionOfDepth (ts.length + 1) ts

/-- What a parser reads in front of the end is all that there is. -/
theorem spelled_of_endOfInput {α : Type} {p : Parser α} {P : α → List Token → Prop}
    (hp : p.Reads P) {ts rest : Tokens} {a : α}
    (h : ((do let a ← p; endOfInput; return a : Parser α) ts).result = some (a, rest)) :
    P a ts.values := by
  rw [result_bind] at h
  obtain ⟨⟨b, more⟩, hread, hend⟩ := Option.bind_eq_some_iff.mp h
  obtain ⟨us, rfl, hb⟩ := hp ts b more hread
  dsimp only at hend
  rw [result_bind, endOfInput] at hend
  split at hend
  next hempty =>
    cases hend
    rw [List.isEmpty_iff.mp hempty, List.append_nil]
    exact hb
  next => cases hend

theorem reads_condition {ts rest : Tokens} {c : Condition}
    (h : (condition ts).result = some (c, rest)) : c.SpelledBy ts.values := by
  have hcomparison : comparison.Reads fun c us => ∃ sign ∈ c.signs, us = [sign] := by
    refine .satisfy fun t c ht => ⟨t, ?_, rfl⟩
    cases t <;> cases ht <;> simp [Comparison.signs]
  refine spelled_of_endOfInput (.orElse ?_ ?_) h
  · refine reads_expression.optional.bind fun subject us hsubject => hcomparison.bind
      fun c vs hc => reads_expression.optional.bind fun value ws hvalue => .pure ?_
    obtain ⟨sign, hsign, rfl⟩ := hc
    rw [List.append_nil]
    exact .compare hsubject hsign hvalue
  · refine reads_expression.bind fun e us he => .pure ?_
    rw [List.append_nil]
    exact .bare he

theorem reads_action {ts rest : Tokens} {a : Action}
    (h : (action ts).result = some (a, rest)) : a.SpelledBy ts.values := by
  have hassignment : assignment.Reads fun c us => us = [c.sign] := by
    refine .satisfy fun t c ht => ?_
    cases t <;> cases ht <;> rfl
  refine spelled_of_endOfInput (.orElse ?_ ?_) h
  · refine reads_expression.optional.bind fun target us htarget => hassignment.bind
      fun c vs hc => reads_expression.optional.bind fun value ws hvalue => .pure ?_
    rw [hc, List.append_nil]
    exact .change htarget hvalue
  · refine reads_expression.bind fun e us he => .pure ?_
    rw [List.append_nil]
    exact .bare he

end Parser

end Gamebook.Script
