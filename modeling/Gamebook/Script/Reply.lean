import Gamebook.Script.Token

/-!
# Parsing with a report

A parser takes a row of tokens and answers with what it read and what is left, or with failure.
In either case it also reports the furthest place at which something it tried did not fit, together
with all that could have stood there. Choice is ordered: an alternative is tried only if the ones
before it failed, and one that succeeded is never taken back.

The report decides nothing; it only explains a failure in the end.
-/

namespace Gamebook.Script

/-- Something that could have stood at a place. -/
inductive Expectation where
  /-- One token. -/
  | token (t : Token)
  | word
  | name
  | dereference
  | integer
  | verbCall
  | arguments
  | operator
  | comparison
  | assignment
  | endOfInput
  deriving DecidableEq, Repr

/-- How a message names what was expected. -/
def Expectation.text : Expectation → String
  | token t => s!"'{t.text}'"
  | word => "word"
  | name => "name"
  | dereference => "dereference"
  | integer => "integer"
  | verbCall => "verb call"
  | arguments => "arguments"
  | operator => "operator"
  | comparison => "comparison"
  | assignment => "assignment"
  | endOfInput => "end of input"

/-- Why the tokens did not fit at a place. -/
inductive Complaint where
  /-- None of these stood there. -/
  | expected (es : List Expectation)
  /-- A word behind a minus sign is no numeral of the range; the span takes in the sign. -/
  | badInteger (numeral : String) (span : Span)
  deriving DecidableEq, Repr

/-- A row of tokens with their places. -/
abbrev Tokens := List (Located Token)

/-- A complaint, and the tokens from its place on. -/
structure Report where
  rest : Tokens
  complaint : Complaint
  deriving DecidableEq, Repr

/-- Two complaints about one place: a numeral out of range says more than a list, and lists are put
together without repeats. -/
def Complaint.merge : Complaint → Complaint → Complaint
  | expected es, expected fs => expected (es ++ fs.filter fun f => !es.contains f)
  | expected _, c => c
  | c, _ => c

/-- The report about the place further on; about the same place, both. -/
def Report.merge (a b : Report) : Report :=
  if a.rest.length < b.rest.length then a
  else if b.rest.length < a.rest.length then b
  else { a with complaint := a.complaint.merge b.complaint }

/-- Put reports together, where there are any. -/
def mergeReports : Option Report → Option Report → Option Report
  | some a, some b => some (a.merge b)
  | some a, none => some a
  | none, b => b

/-- What a parser answers. -/
structure Reply (α : Type) where
  /-- What was read, and the tokens left. -/
  result : Option (α × Tokens)
  /-- The furthest place where something did not fit. -/
  report : Option Report

/-- A parser of things of type `α`. -/
def Parser (α : Type) := Tokens → Reply α

namespace Parser

/-! ### Single steps -/

/-- Read nothing. -/
protected def pure {α : Type} (a : α) : Parser α := fun ts =>
  ⟨some (a, ts), none⟩

/-- One parser after the other. -/
protected def bind {α β : Type} (p : Parser α) (f : α → Parser β) : Parser β := fun ts =>
  match p ts with
  | ⟨none, report⟩ => ⟨none, report⟩
  | ⟨some (a, rest), report⟩ =>
    let reply := f a rest
    { reply with report := mergeReports report reply.report }

instance : Monad Parser where
  pure := Parser.pure
  bind := Parser.bind

/-- Read one token that has a meaning; `es` says what was wanted if it has none. -/
def satisfy {α : Type} (es : List Expectation) (meaning : Token → Option α) : Parser α := fun ts =>
  match ts with
  | [] => ⟨none, some ⟨ts, .expected es⟩⟩
  | t :: rest => match meaning t.value with
    | some a => ⟨some (a, rest), none⟩
    | none => ⟨none, some ⟨ts, .expected es⟩⟩

/-- Read a given token. -/
def token (t : Token) : Parser Unit :=
  satisfy [.token t] fun u => if u = t then some () else none

/-- Read a word. -/
def word : Parser String :=
  satisfy [.word] fun
    | .word text => some text
    | _ => none

/-- Read the end. -/
def endOfInput : Parser Unit := fun ts =>
  if ts.isEmpty then ⟨some ((), ts), none⟩ else ⟨none, some ⟨ts, .expected [.endOfInput]⟩⟩

/-! ### Choice and repetition -/

/-- The first alternative, or else the second one. -/
def orElse {α : Type} (p q : Parser α) : Parser α := fun ts =>
  match p ts with
  | ⟨some r, report⟩ => ⟨some r, report⟩
  | ⟨none, report⟩ =>
    let reply := q ts
    { reply with report := mergeReports report reply.report }

/-- Read something, or nothing if it does not fit. -/
def optional {α : Type} (p : Parser α) : Parser (Option α) :=
  orElse (do return some (← p)) (Parser.pure none)

/-- Name what is read: a complaint about its very start asks for `e` as a whole. -/
def named {α : Type} (e : Expectation) (p : Parser α) : Parser α := fun ts =>
  let reply := p ts
  { reply with
    report := reply.report.map fun r =>
      if r.rest.length = ts.length then { r with complaint := .expected [e] } else r }

/-- Read as often as it fits. A parser that reads nothing is not asked again. -/
def many {α : Type} (p : Parser α) : Parser (List α) := fun ts =>
  match p ts with
  | ⟨none, report⟩ => ⟨some ([], ts), report⟩
  | ⟨some (a, rest), report⟩ =>
    if rest.length < ts.length then
      let reply := many p rest
      ⟨reply.result.map fun (as, rest) => (a :: as, rest), mergeReports report reply.report⟩
    else ⟨some ([], ts), report⟩
termination_by ts => ts.length

end Parser

end Gamebook.Script
