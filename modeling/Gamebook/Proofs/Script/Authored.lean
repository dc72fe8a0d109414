import Gamebook.Proofs.Script.Folding
import Gamebook.Proofs.Text.Pieces
import Mathlib.Data.List.Basic

/-!
# What an author writes, and what is stored of it

Behind a question mark or an exclamation mark an author writes pieces with `&` and `|` between them,
and each piece is stored in brackets of its own. Two scans have to agree for this: the one that cuts
the pieces knows of parentheses and not of brackets, and the one that reads a stored script knows of
brackets and not of parentheses. They do agree, on any text without brackets of its own: reading the
stored script gives one segment for each piece, which is what the piece is read as by itself, and
reports the errors of the pieces, each at its place (`ofText_stored`).

Stored scripts that are joined are read in the same way, one behind the other.
-/

namespace Gamebook.Script

open Text (Pieces Unbracketed)

/-! ### Bodies in brackets -/

/-- The errors in some bodies of which each is in brackets, with a separator between any two. -/
def bodiesErrors (start : Nat) : List (List Char) → List (Located SyntaxError)
  | [] => []
  | body :: more => bodyErrors start body ++ bodiesErrors (start + Text.byteLength body + 3) more

/-- Whether a character stands between two segments. -/
def isConnector (c : Char) : Bool :=
  c == '&' || c == '|'

/-- The connector that such a character stands for. -/
def Connector.ofSeparator (c : Char) : Connector :=
  if c = '&' then .and else .or

theorem Connector.ofChar?_eq {c : Char} (h : isConnector c = true) :
    Connector.ofChar? c = some (Connector.ofSeparator c) := by
  rcases Bool.or_eq_true_iff.mp h with hc | hc
  · rw [eq_of_beq hc]
    rfl
  · rw [eq_of_beq hc]
    rfl

theorem Connector.ofChar?_eq_none {c : Char} (h : ¬ isConnector c = true) :
    Connector.ofChar? c = none := by
  rw [isConnector, Bool.or_eq_true, beq_iff_eq, beq_iff_eq, not_or] at h
  rw [Connector.ofChar?, if_neg h.1, if_neg h.2]

/-- What is read from a body in brackets on, by what stands behind it. -/
def segmentsBehind (connector : Connector) (start : Nat) (body : List Char) :
    List Char → List (Connector × Segment) × List (Located SyntaxError)
  | [] => ([(connector, .ofBody body)], bodyErrors start body)
  | c :: rest =>
    let more := segmentsFrom (.ofSeparator c) (start + Text.byteLength body + 3) rest
    ((connector, .ofBody body) :: more.1, bodyErrors start body ++ more.2)

/-- A body in brackets is a segment. What stands behind a connector is read next, and anything else
that stands behind the brackets is an error. -/
theorem segmentsFrom_pair {body behind : List Char}
    (h : Text.Marker.bracket.lengthAt? ('[' :: (body ++ ']' :: behind)) = some (body.length + 2))
    (connector : Connector) (start : Nat) :
    segmentsFrom connector start ('[' :: (body ++ ']' :: behind)) =
      match behind with
      | [] => segmentsBehind connector start body []
      | c :: rest =>
        if isConnector c then segmentsBehind connector start body (c :: rest)
        else ([(connector, .ofBody body)], bodyErrors start body ++
          [⟨.badConnector c, Span.ofLength (start + Text.byteLength body + 2) c.utf8Size⟩]) := by
  rw [segmentsFrom_bracket h]
  cases behind with
  | nil => rfl
  | cons c rest =>
    dsimp only
    by_cases hc : isConnector c = true
    · rw [Connector.ofChar?_eq hc, if_pos hc]
      rfl
    · rw [Connector.ofChar?_eq_none hc, if_neg hc]

/-- A body in brackets is a segment, and what stands behind a connector is read next. -/
theorem segmentsFrom_body {body : List Char} (h : Unbracketed body) (connector : Connector)
    (start : Nat) {behind : List Char} (hbehind : ∀ c ∈ behind.head?, isConnector c = true) :
    segmentsFrom connector start ('[' :: body ++ ']' :: behind) =
      segmentsBehind connector start body behind := by
  have hlength : Text.Marker.bracket.lengthAt? ('[' :: (body ++ ']' :: behind)) =
      some (body.length + 2) := by
    rw [Text.Marker.bracket, Text.Marker.lengthAt?]
    exact congrArg (Option.map (· + 1)) (h.findClose behind)
  rw [List.cons_append, segmentsFrom_pair hlength]
  cases behind with
  | nil => rfl
  | cons c rest => exact if_pos (hbehind c rfl)

/-- Bodies in brackets are the segments that are read of them, in their order. -/
theorem segmentsFrom_bracketed {p : Pieces} (hp : p.All isConnector Unbracketed)
    (connector : Connector) (start : Nat) :
    segmentsFrom connector start p.bracketed =
      ((connector, .ofBody p.head) ::
        p.tail.map fun (sep, body) => (.ofSeparator sep, .ofBody body),
      bodiesErrors start p.texts) := by
  obtain ⟨head, tail⟩ := p
  induction tail generalizing head connector start with
  | nil =>
    rw [Pieces.bracketed, List.flatMap_nil, segmentsFrom_body hp.head _ _ (by simp)]
    simp [segmentsBehind, Pieces.texts, bodiesErrors]
  | cons part tail ih =>
    obtain ⟨sep, body⟩ := part
    obtain ⟨hsep, hbody⟩ := hp.tail _ List.mem_cons_self
    have hmore : (⟨body, tail⟩ : Pieces).All isConnector Unbracketed :=
      ⟨hbody, fun part hpart => hp.tail part (List.mem_cons_of_mem _ hpart)⟩
    have hfront : (⟨head, (sep, body) :: tail⟩ : Pieces).bracketed =
        '[' :: head ++ ']' :: sep :: (⟨body, tail⟩ : Pieces).bracketed := by
      simp [Pieces.bracketed]
    have hbehind : ∀ c ∈ (sep :: (⟨body, tail⟩ : Pieces).bracketed).head?,
        isConnector c = true := by
      simpa using hsep
    rw [hfront, segmentsFrom_body hp.head _ _ hbehind, segmentsBehind, ih _ _ _ hmore]
    rfl

/-! ### Stored scripts -/

/-- What an author can write behind a mark. -/
inductive Authored where
  | condition
  | instruction
  deriving DecidableEq, Repr

namespace Authored

/-- The mark in front. -/
def mark : Authored → Char
  | condition => '?'
  | instruction => '!'

/-- What a piece is read as by itself. -/
def read : Authored → List Char → Except (List (Located SyntaxError)) Segment
  | condition, piece => (Condition.ofText piece).map .condition
  | instruction, piece => (Instruction.ofText piece).map .instruction

/-- The segment that a piece stands for; one that cannot be read is invalid. -/
def segment (k : Authored) (piece : List Char) : Segment :=
  match k.read piece with
  | .ok s => s
  | .error _ => .invalid

/-- The errors in a piece. -/
def errors (k : Authored) (piece : List Char) : List (Located SyntaxError) :=
  match k.read piece with
  | .ok _ => []
  | .error es => es

/-- The errors in pieces that are stored from an offset on. A piece stands behind a bracket and the
mark, and in front of a bracket and a separator. -/
def errorsFrom (k : Authored) (start : Nat) : List (List Char) → List (Located SyntaxError)
  | [] => []
  | piece :: more =>
    (k.errors piece).map (fun e => ⟨e.value, e.span.shift (start + 2)⟩) ++
      k.errorsFrom (start + Text.byteLength piece + 4) more

/-- The stored form of what is written. -/
def stored (k : Authored) (run : List Char) : String :=
  String.ofList (chainText k.mark run)

theorem ofBody_mark (k : Authored) (piece : List Char) :
    Segment.ofBody (k.mark :: piece) = k.segment piece := by
  cases k <;> rfl

theorem bodyErrors_mark (k : Authored) (start : Nat) (piece : List Char) :
    bodyErrors start (k.mark :: piece) =
      (k.errors piece).map fun e => ⟨e.value, e.span.shift (start + 2)⟩ := by
  have hread : Segment.ofText (k.mark :: piece) = k.read piece := by cases k <;> rfl
  rw [bodyErrors, hread, errors]
  cases k.read piece <;> rfl

theorem bodiesErrors_mark (k : Authored) (start : Nat) (pieces : List (List Char)) :
    bodiesErrors start (pieces.map (k.mark :: ·)) = k.errorsFrom start pieces := by
  have hmark : ∀ k : Authored, k.mark.utf8Size = 1 := by
    intro k
    cases k <;> rfl
  induction pieces generalizing start with
  | nil => rfl
  | cons piece more ih =>
    rw [List.map_cons, bodiesErrors, bodyErrors_mark, errorsFrom, ← ih, Text.byteLength_cons,
      hmark k]
    congr 2
    omega

/-- The pieces of what is written. -/
def pieces (run : List Char) : Pieces :=
  Text.splitTopLevel isConnector 0 run

/-- The bodies in brackets of which the stored form consists. -/
def bodies (k : Authored) (run : List Char) : Pieces :=
  (pieces run).marked k.mark

theorem chainText_eq (k : Authored) (run : List Char) :
    chainText k.mark run = (k.bodies run).bracketed := by
  rw [chainText, bodies, pieces, Pieces.marked, Pieces.bracketed, List.flatMap_map]
  simp only [List.cons_append, List.append_assoc]
  rfl

/-- What is written without brackets is stored with no others but those around the pieces. -/
theorem all_bodies (k : Authored) {run : List Char} (h : Unbracketed run) :
    (k.bodies run).All isConnector Unbracketed := by
  refine (Pieces.All.splitTopLevel Unbracketed.stepwise 0 h).marked fun {piece} hpiece => ?_
  cases k with
  | condition => exact .char (by decide) (by decide) (by decide) hpiece
  | instruction => exact .char (by decide) (by decide) (by decide) hpiece

end Authored

/-! ### Chains of bodies -/

/-- The segments that bodies in brackets stand for, the first behind an `&`. -/
def bodiesSegments (p : Pieces) : List (Connector × Segment) :=
  (.and, .ofBody p.head) :: p.tail.map fun (sep, body) => (.ofSeparator sep, .ofBody body)

/-- The chain of a script that consists of bodies in brackets. -/
theorem ofText_bracketed {p : Pieces} (hp : p.All isConnector Unbracketed) {script : String}
    (hscript : script.toList = p.bracketed) :
    (Chain.ofText script).1.segments = bodiesSegments p ∧
      (Chain.ofText script).2 = bodiesErrors 0 p.texts := by
  have hopens : script.toList.head? = some '[' := by
    rw [hscript]
    rfl
  rw [Chain.ofText, isBlank_of_opens hopens, if_neg Bool.false_ne_true, hscript,
    segmentsFrom_bracketed hp]
  exact ⟨rfl, rfl⟩

/-- Where bodies start says where their errors are, and not which. -/
theorem values_bodiesErrors (start : Nat) (bodies : List (List Char)) :
    (bodiesErrors start bodies).map (·.value) =
      bodies.flatMap fun body => (bodyErrors 0 body).map (·.value) := by
  have hbody : ∀ (start : Nat) (body : List Char),
      (bodyErrors start body).map (·.value) = (bodyErrors 0 body).map (·.value) := by
    intro start body
    rw [bodyErrors, bodyErrors]
    cases Segment.ofText body with
    | ok s => rfl
    | error es => simp
  induction bodies generalizing start with
  | nil => rfl
  | cons body more ih => rw [bodiesErrors, List.map_append, ih, hbody start, List.flatMap_cons]

/-- The bodies of what is stored for one thing after the other, with `&` between any two. -/
def joinedBodies (first : Authored × List Char) : List (Authored × List Char) → Pieces
  | [] => first.1.bodies first.2
  | next :: others => (first.1.bodies first.2).append '&' (joinedBodies next others)

variable {first : Authored × List Char} {others : List (Authored × List Char)}

theorem all_joinedBodies (h : ∀ o ∈ first :: others, Unbracketed o.2) :
    (joinedBodies first others).All isConnector Unbracketed := by
  induction others generalizing first with
  | nil => exact first.1.all_bodies (h first List.mem_cons_self)
  | cons next others ih =>
    exact (first.1.all_bodies (h first List.mem_cons_self)).append rfl
      (ih fun o ho => h o (List.mem_cons_of_mem first ho))

/-- The stored form of what is written is not empty, so folding leaves nothing out. -/
theorem toList_foldChains_stored (first : Authored × List Char)
    (others : List (Authored × List Char)) :
    (foldChains ((first :: others).map fun o => o.1.stored o.2)).toList =
      (joinedBodies first others).bracketed := by
  have hstored : ∀ o : Authored × List Char,
      (o.1.stored o.2).toList = (o.1.bodies o.2).bracketed := fun o => by
    rw [Authored.stored, String.toList_ofList, o.1.chainText_eq]
  have hkeep : ((first :: others).map fun o => o.1.stored o.2).filter (fun s => !s.isEmpty) =
      (first :: others).map fun o => o.1.stored o.2 := by
    refine List.filter_eq_self.mpr fun s hs => ?_
    obtain ⟨o, -, rfl⟩ := List.mem_map.mp hs
    cases hempty : (o.1.stored o.2).isEmpty with
    | false => rfl
    | true =>
      have hnil := hstored o
      rw [String.isEmpty_iff.mp hempty] at hnil
      cases hnil
  rw [foldChains, hkeep]
  clear hkeep
  induction others generalizing first with
  | nil =>
    rw [List.map_singleton, String.intercalate_singleton]
    exact hstored first
  | cons next others ih =>
    rw [List.map_cons, List.map_cons, String.intercalate_cons_cons, String.toList_append,
      String.toList_append, ← List.map_cons (f := fun o : Authored × List Char => o.1.stored o.2),
      ih, hstored, joinedBodies, Pieces.bracketed_append, List.append_assoc]
    rfl

/-- What is read of joined bodies is what is read of the first, and then what is read of the
others. -/
theorem bodiesSegments_joined (first : Authored × List Char)
    (others : List (Authored × List Char)) :
    bodiesSegments (joinedBodies first others) =
      (first :: others).flatMap fun o => bodiesSegments (o.1.bodies o.2) := by
  induction others generalizing first with
  | nil => simp [joinedBodies]
  | cons next others ih =>
    rw [List.flatMap_cons, ← ih next]
    simp [joinedBodies, bodiesSegments, Pieces.append, Connector.ofSeparator]

theorem texts_joinedBodies (first : Authored × List Char) (others : List (Authored × List Char)) :
    (joinedBodies first others).texts =
      (first :: others).flatMap fun o => (o.1.bodies o.2).texts := by
  induction others generalizing first with
  | nil => simp [joinedBodies]
  | cons next others ih =>
    rw [List.flatMap_cons, ← ih next, joinedBodies, Pieces.texts_append]

/-! ### What is written is read back -/

namespace Authored

theorem ofText_bodies (k : Authored) {run : List Char} (h : Unbracketed run) :
    (Chain.ofText (k.stored run)).1.segments = bodiesSegments (k.bodies run) ∧
      (Chain.ofText (k.stored run)).2 =
        bodiesErrors 0 (k.bodies run).texts := by
  refine ofText_bracketed (k.all_bodies h) ?_
  rw [stored, String.toList_ofList, chainText_eq]

/-- What is stored for a run without brackets is read as its pieces are. -/
theorem ofText_pieces (k : Authored) {run : List Char} (h : Unbracketed run) :
    Chain.ofText (k.stored run) =
      (⟨k.segment (pieces run).head,
          (pieces run).tail.map fun (sep, piece) => (.ofSeparator sep, k.segment piece)⟩,
        k.errorsFrom 0 (pieces run).texts) := by
  obtain ⟨hsegments, herrors⟩ := k.ofText_bodies h
  obtain ⟨hfirst, hrest⟩ := List.cons.inj hsegments
  have hchain : (Chain.ofText (k.stored run)).1 = ⟨k.segment (pieces run).head,
      (pieces run).tail.map fun (sep, piece) => (.ofSeparator sep, k.segment piece)⟩ := by
    refine (Chain.mk.injEq ..).mpr ⟨(Prod.mk.inj hfirst).2.trans (k.ofBody_mark _), hrest.trans ?_⟩
    rw [bodies, Pieces.marked, List.map_map]
    exact List.map_congr_left fun part _ => congrArg (Prod.mk _) (k.ofBody_mark part.2)
  refine Prod.ext hchain (herrors.trans ?_)
  rw [bodies, Pieces.texts_marked, bodiesErrors_mark]

end Authored

/-- **What an author writes is read back piece by piece.** The pieces of a run, with the separators
between them, are the run. Its stored form has one segment for each piece, which is what the piece
is read as by itself, behind the connector that the separator in front of it stands for; the errors
are those of the pieces, in order and in their places. Stored forms that are folded have the
segments and the errors of one after the other, with `&` between any two. -/
theorem ofText_stored (k : Authored) {run : List Char} (hrun : Unbracketed run)
    (others : List (Authored × List Char)) (hothers : ∀ o ∈ others, Unbracketed o.2) :
    (Authored.pieces run).joined = run ∧
    (∀ part ∈ (Authored.pieces run).tail, part.1 = '&' ∨ part.1 = '|') ∧
    Chain.ofText (k.stored run) =
      (⟨k.segment (Authored.pieces run).head,
          (Authored.pieces run).tail.map fun (sep, piece) => (.ofSeparator sep, k.segment piece)⟩,
        k.errorsFrom 0 (Authored.pieces run).texts) ∧
    ((Chain.ofText (foldChains (((k, run) :: others).map fun o => o.1.stored o.2))).1.segments =
        ((k, run) :: others).flatMap fun o => (Chain.ofText (o.1.stored o.2)).1.segments) ∧
    (Chain.ofText (foldChains (((k, run) :: others).map fun o => o.1.stored o.2))).2.map (·.value) =
        ((k, run) :: others).flatMap fun o => (Chain.ofText (o.1.stored o.2)).2.map (·.value) := by
  have hall : ∀ o ∈ (k, run) :: others, Unbracketed o.2 := by
    intro o ho
    rcases List.mem_cons.mp ho with rfl | ho
    · exact hrun
    · exact hothers o ho
  obtain ⟨hsegments, herrors⟩ :=
    ofText_bracketed (all_joinedBodies hall) (toList_foldChains_stored (k, run) others)
  refine ⟨Text.joined_splitTopLevel _ _ _, fun part hpart => ?_, k.ofText_pieces hrun, ?_, ?_⟩
  · have hsep := ((Pieces.All.splitTopLevel Unbracketed.stepwise 0 hrun).tail part hpart).1
    simpa [isConnector] using hsep
  · rw [hsegments, bodiesSegments_joined]
    exact List.flatMap_congr fun o ho => (o.1.ofText_bodies (hall o ho)).1.symm
  · rw [herrors, values_bodiesErrors, texts_joinedBodies, List.flatMap_assoc]
    refine List.flatMap_congr fun o ho => ?_
    rw [(o.1.ofText_bodies (hall o ho)).2, values_bodiesErrors]

/-- A call with a connector among its arguments, a piece that cannot be read, and a condition with
an escaped connector and a blank piece: four segments, of which the second is invalid. -/
theorem ofText_stored_call :
    Unbracketed "f(a&b)|)<".toList ∧ Unbracketed "x\\&y&".toList ∧
    Authored.segment .instruction ")<".toList = .invalid ∧
    (Chain.ofText (foldChains (([(.instruction, "f(a&b)|)<".toList),
        (.condition, "x\\&y&".toList)] : List (Authored × List Char)).map
          fun o => o.1.stored o.2))).1.segments =
      [(.and, Authored.segment .instruction "f(a&b)".toList), (.or, .invalid),
        (.and, Authored.segment .condition "x\\&y".toList), (.and, .condition .always)] := by
  have hcall : Unbracketed "f(a&b)|)<".toList := by decide +kernel
  have hescape : Unbracketed "x\\&y&".toList := by decide +kernel
  obtain ⟨-, -, -, hsegments, -⟩ := ofText_stored .instruction hcall
    [(.condition, "x\\&y&".toList)] (by simpa using hescape)
  refine ⟨hcall, hescape, by decide +kernel, ?_⟩
  rw [hsegments]
  decide +kernel

end Gamebook.Script
