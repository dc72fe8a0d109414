import Gamebook.Proofs.Page.Enclosing
import Gamebook.Proofs.Page.Texts
import Gamebook.Proofs.Pattern.Scripts
import Gamebook.Proofs.Script.Authored

/-!
# Bodies with a noun in the hole

A body with the noun in the hole makes the same page, with the noun in the hole of every text, of
every script and of the names of the verbs (`Filling.fills_run`). The reports are others; and where
two verbs have the same name only with the noun in it, one of them is refused.
-/

namespace Gamebook

open Text Script

/-- A declaration that is closed, and what is declared behind it. -/
theorem Draft.declarations_pair (d : Draft) (names : List String) {name behind : List Char}
    (h : findClose '[' ']' 0 (':' :: (name ++ ']' :: behind)) = some (name.length + 2)) :
    d.declarations names ('[' :: ':' :: (name ++ ']' :: behind)) =
      if (unescape (trim name)).isEmpty then
        (d.report ('[' :: ':' :: (name ++ ']' :: behind)) .namelessVerb).declarations names behind
      else d.declarations (names ++ [String.ofList (unescape (trim name))]) behind := by
  have hdrop : (':' :: (name ++ ']' :: behind)).drop (name.length + 2) = behind := by
    simp
  rw [declarations, h]
  dsimp only
  rw [Nat.add_sub_cancel, List.take_left, hdrop]

namespace Filling

variable {F : Filling} {cs : List Char}

/-! ### Stored scripts -/

/-- The noun may be put into the pieces of a text. -/
theorem Bare.pieces (h : F.Bare cs) (isSeparator : Char → Bool) (depth : Nat) :
    F.Bare (splitTopLevel isSeparator depth cs).head ∧
      ∀ part ∈ (splitTopLevel isSeparator depth cs).tail, F.Bare part.2 := by
  rw [← joined_splitTopLevel isSeparator depth cs, Pieces.joined] at h
  refine ⟨h.left, fun part hpart => ?_⟩
  obtain ⟨before, after, hsplit⟩ := List.append_of_mem hpart
  rw [hsplit, List.flatMap_append, List.flatMap_cons] at h
  exact h.right.right.left.tail

/-- Pieces are stored with a mark between any two of them, so the noun goes into each by itself. -/
theorem bracketed_fill {p : Pieces} (hp : ∀ part ∈ p.tail, isPlain part.1 = false) :
    (mapPieces F.fill p).bracketed = F.fill p.bracketed := by
  obtain ⟨first, parts⟩ := p
  have hparts : ((parts.map fun part => (part.1, F.fill part.2)).flatMap fun part =>
      part.1 :: '[' :: part.2 ++ [']']) =
        F.fill (parts.flatMap fun part => part.1 :: '[' :: part.2 ++ [']']) := by
    induction parts with
    | nil => rfl
    | cons part parts ih =>
      obtain ⟨hpart, hparts⟩ := List.forall_mem_cons.mp hp
      rw [List.map_cons, List.flatMap_cons, List.flatMap_cons, ih hparts, fill_append, fill_append,
        fill_mark hpart, fill_mark rfl, fill_mark rfl]
      rfl
  rw [Pieces.bracketed, Pieces.bracketed, fill_append, fill_mark rfl, fill_mark rfl]
  exact congrArg (fun behind => '[' :: F.fill first ++ ']' :: behind) hparts

/-- The noun may be put into pieces in brackets, if it may be put into each of them. -/
theorem Bare.bracketed {p : Pieces} (hhead : F.Bare p.head)
    (hp : ∀ part ∈ p.tail, part.1 ≠ '\\' ∧ F.Bare part.2) :
    F.Bare p.bracketed := by
  obtain ⟨first, parts⟩ := p
  have hparts : F.Bare (parts.flatMap fun part => part.1 :: '[' :: part.2 ++ [']']) := by
    induction parts with
    | nil => exact .nil
    | cons part parts ih =>
      obtain ⟨⟨hescape, hpart⟩, hparts⟩ := List.forall_mem_cons.mp hp
      have hpiece := hpart.around (ih hhead hparts) (c := ']') (by decide) (ne_hole rfl)
      rw [List.flatMap_cons, List.append_assoc]
      exact (hpiece.cons (by decide)).cons hescape
  exact (hhead.around hparts (c := ']') (by decide) (ne_hole rfl)).cons (by decide)

/-- A connector stands in no noun, and escapes nothing. -/
theorem isPlain_of_isConnector {c : Char} (h : isConnector c = true) :
    isPlain c = false ∧ c ≠ ' ' ∧ c ≠ '\\' := by
  rcases Bool.or_eq_true_iff.mp h with hc | hc
  · rw [eq_of_beq hc]
    decide
  · rw [eq_of_beq hc]
    decide

/-- Between the pieces stand connectors. -/
theorem isConnector_of_mem_pieces {run : List Char} :
    ∀ part ∈ (Authored.pieces run).tail, isConnector part.1 = true := by
  have hstep : Stepwise fun _ => True :=
    ⟨trivial, fun _ => ⟨trivial, fun _ => trivial⟩, fun _ _ => ⟨trivial, fun _ => trivial⟩⟩
  exact fun part hpart => ((hstep.splitTopLevel isConnector 0 trivial).2 part hpart).1

/-- What is stored of a script with the noun in the hole. -/
theorem chainText_fill {run : List Char} (k : Authored) (h : F.Bare run) :
    chainText k.mark (F.fill run) = F.fill (chainText k.mark run) := by
  have hseparator (c : Char) (hc : isConnector c = true) : isPlain c = false ∧ c ≠ ' ' :=
    ⟨(isPlain_of_isConnector hc).1, (isPlain_of_isConnector hc).2.1⟩
  have hmark : isPlain k.mark = false := by cases k <;> rfl
  have hmarked (p : Pieces) : (mapPieces F.fill p).marked k.mark =
      mapPieces F.fill (p.marked k.mark) := by
    rw [Pieces.marked, Pieces.marked, mapPieces, mapPieces, fill_mark hmark, List.map_map,
      List.map_map]
    congr 1
    exact List.map_congr_left fun part _ => congrArg (part.1, ·) (fill_mark hmark part.2).symm
  rw [Authored.chainText_eq, Authored.chainText_eq, Authored.bodies, Authored.pieces,
    splitTopLevel_fill hseparator h, hmarked, ← Authored.pieces, ← Authored.bodies]
  refine bracketed_fill fun part hpart => ?_
  obtain ⟨part', hpart', rfl⟩ := List.mem_map.mp hpart
  exact (isPlain_of_isConnector (isConnector_of_mem_pieces part' hpart')).1

/-- The noun may be put into what is stored. -/
theorem Bare.chainText {run : List Char} (k : Authored) (h : F.Bare run) :
    F.Bare (Script.chainText k.mark run) := by
  have hmark : k.mark ≠ '\\' := by cases k <;> decide
  obtain ⟨hhead, htail⟩ := h.pieces isConnector 0
  rw [Authored.chainText_eq]
  refine Bare.bracketed (hhead.cons hmark) fun part hpart => ?_
  obtain ⟨part', hpart', rfl⟩ := List.mem_map.mp hpart
  obtain ⟨-, -, hescape⟩ := isPlain_of_isConnector (isConnector_of_mem_pieces part' hpart')
  exact ⟨hescape, (htail part' hpart').cons hmark⟩

theorem fill_intercalate {c : Char} (hc : isPlain c = false) (pieces : List (List Char)) :
    F.fill ([c].intercalate pieces) = [c].intercalate (pieces.map F.fill) := by
  induction pieces with
  | nil => rfl
  | cons piece pieces ih =>
    cases pieces with
    | nil => simp
    | cons next pieces =>
      rw [List.map_cons, List.map_cons, List.intercalate_cons_cons, List.intercalate_cons_cons,
        fill_append, fill_append, ih, fill_mark hc, List.map_cons]
      rfl

/-- Scripts are folded alike, since a script is empty with the noun in it exactly if it is
without. -/
theorem foldChains_fill (scripts : List String) :
    foldChains (scripts.map F.name) = F.name (foldChains scripts) := by
  have hfilter : (scripts.map F.name).filter (fun s => !s.isEmpty) =
      (scripts.filter fun s => !s.isEmpty).map F.name := by
    rw [List.filter_map]
    congr 2
    funext s
    rw [Function.comp_apply, isEmpty_name]
  rw [Script.foldChains, Script.foldChains, hfilter, String.ext_iff, name_toList,
    String.toList_intercalate, String.toList_intercalate]
  have hfill := F.fill_intercalate (c := '&') rfl
    ((scripts.filter fun s => !s.isEmpty).map String.toList)
  refine .trans ?_ hfill.symm
  rw [List.map_map, List.map_map]
  congr 1
  exact List.map_congr_left fun s _ => F.name_toList s

theorem Bare.intercalate {c : Char} (hc : isPlain c = false ∧ c ≠ '\\')
    {pieces : List (List Char)} (h : ∀ piece ∈ pieces, F.Bare piece) :
    F.Bare ([c].intercalate pieces) := by
  induction pieces with
  | nil => exact .nil
  | cons piece pieces ih =>
    obtain ⟨hpiece, hpieces⟩ := List.forall_mem_cons.mp h
    cases pieces with
    | nil => simpa using hpiece
    | cons next pieces =>
      rw [List.intercalate_cons_cons, List.append_assoc]
      exact hpiece.around (ih hpieces) hc.2 (ne_hole hc.1)

/-- The noun may be put into what some scripts are folded to. -/
theorem Bare.foldChains {scripts : List String} (h : ∀ s ∈ scripts, F.Bare s.toList) :
    F.Bare (Script.foldChains scripts).toList := by
  rw [Script.foldChains, String.toList_intercalate]
  refine Bare.intercalate (c := '&') (by decide) fun piece hpiece => ?_
  obtain ⟨script, hscript, rfl⟩ := List.mem_map.mp hpiece
  exact h script (List.mem_of_mem_filter hscript)

/-! ### Drafts -/

/-- A block with the noun in the hole. -/
def block (F : Filling) (b : Block) : Block :=
  { b with expression := F.name b.expression }

/-- A verb with the noun in the hole of its names. -/
def verb (F : Filling) (v : Verb) : Verb :=
  ⟨F.name v.visualName, v.names.map F.name, v.root⟩

/-- An open verb with the noun in the hole of its names. -/
def openVerb (F : Filling) (v : OpenVerb) : OpenVerb :=
  { v with names := v.names.map F.name }

/-- A condition above the verbs with the noun in the hole. -/
def pending (F : Filling) (p : Pending) : Pending :=
  { p with expression := F.name p.expression }

/-- Whether two pages are the same but for the noun in the hole. -/
structure FillsPage (F : Filling) (p p' : Page) : Prop where
  blocks : p'.blocks = p.blocks.map F.block
  /-- The same verbs were declared on both. -/
  verbs : ∃ declared : List Verb, p.verbs = declared.foldl Verb.adopt [] ∧
    p'.verbs = (declared.map F.verb).foldl Verb.adopt []
  /-- The noun fits the scripts. -/
  fits : ∀ b ∈ p.blocks, b.kind = .script → F.Bare b.expression.toList

/-- Whether two drafts are the same but for the noun in the hole, and for what was reported. -/
structure Fills (F : Filling) (d d' : Draft) : Prop where
  page : F.FillsPage d.page d'.page
  verb : d'.verb = d.verb.map F.openVerb
  pending : d'.pending = d.pending.map F.pending
  depth : d'.depth = d.depth
  fits : ∀ p ∈ d.pending, F.Bare p.expression.toList

variable {d d' e e' : Draft}

/-! ### Pages -/

namespace FillsPage

variable {p p' : Page} {b : Block}

/-- A block is added at the end. -/
theorem concat (h : F.FillsPage p p') {blocks blocks' : List Block}
    (hblocks : blocks' = blocks.map F.block)
    (hfits : ∀ x ∈ blocks, x.kind = .script → F.Bare x.expression.toList)
    (hb : b.kind = .script → F.Bare b.expression.toList) :
    F.FillsPage { p with blocks := blocks ++ [b] }
      { p' with blocks := blocks' ++ [F.block b] } where
  blocks := by rw [hblocks, List.map_append]; rfl
  verbs := h.verbs
  fits x hx := (List.mem_append.mp hx).elim (hfits x) fun hx => List.mem_singleton.mp hx ▸ hb

theorem length_eq (h : F.FillsPage p p') : p'.blocks.length = p.blocks.length := by
  rw [h.blocks, List.length_map]

theorem addBlock (h : F.FillsPage p p') (hb : b.kind = .script → F.Bare b.expression.toList) :
    F.FillsPage (p.addBlock b).1 (p'.addBlock (F.block b)).1 :=
  h.concat h.blocks h.fits hb

/-- A child gets the same number on both pages, and the same parent. -/
theorem insertChild (h : F.FillsPage p p') (parent : Nat)
    (hb : b.kind = .script → F.Bare b.expression.toList) :
    F.FillsPage (p.insertChild parent b).1 (p'.insertChild parent (F.block b)).1 := by
  have hmodify (id : Nat) : p'.blocks.modify parent (fun q =>
      { q with children := q.children ++ [id] }) =
        (p.blocks.modify parent fun q =>
          { q with children := q.children ++ [id] }).map F.block := by
    refine List.ext_getElem? fun i => ?_
    rw [h.blocks, List.getElem?_modify, List.getElem?_map, List.getElem?_map, List.getElem?_modify]
    cases p.blocks[i]? with
    | none => rfl
    | some x =>
      simp only [Option.map_some]
      split <;> rfl
  have hfits : ∀ x ∈ p.blocks.modify parent fun q =>
      { q with children := q.children ++ [p.blocks.length] },
      x.kind = .script → F.Bare x.expression.toList := by
    intro x hx
    obtain ⟨i, hi⟩ := List.mem_iff_getElem?.mp hx
    rw [List.getElem?_modify] at hi
    obtain ⟨y, hy, rfl⟩ := Option.map_eq_some_iff.mp hi
    have hold := h.fits y (List.mem_of_getElem? hy)
    split <;> exact hold
  have hblocks := hmodify p.blocks.length
  rw [Page.insertChild, Page.insertChild, h.length_eq]
  exact h.concat hblocks hfits hb

/-- One more verb is declared. -/
theorem adopt (h : F.FillsPage p p') (v : Verb) :
    F.FillsPage { p with verbs := Verb.adopt p.verbs v }
      { p' with verbs := Verb.adopt p'.verbs (F.verb v) } := by
  obtain ⟨declared, hverbs, hverbs'⟩ := h.verbs
  refine ⟨h.blocks, ⟨declared ++ [v], ?_, ?_⟩, h.fits⟩
  · rw [List.foldl_append, ← hverbs]
    rfl
  · rw [List.map_append, List.foldl_append, ← hverbs']
    rfl

end FillsPage

namespace Fills

/-- What is reported on either side makes no difference. -/
theorem reports (h : F.Fills d d') (he : Draft.OnlyReports d e) (he' : Draft.OnlyReports d' e') :
    F.Fills e e' := by
  obtain ⟨ds, rfl⟩ := he
  obtain ⟨ds', rfl⟩ := he'
  exact ⟨h.page, h.verb, h.pending, h.depth, h.fits⟩

/-- Another verb at hand. -/
theorem setVerb (h : F.Fills d d') (v : Option OpenVerb) :
    F.Fills { d with verb := v } { d' with verb := v.map F.openVerb } :=
  ⟨h.page, rfl, h.pending, h.depth, h.fits⟩

/-- The same scopes are implied on both sides. -/
theorem closeImplied (h : F.Fills d d') : F.Fills d.closeImplied d'.closeImplied := by
  obtain ⟨ds, hclose⟩ := Draft.closeImplied_dropWhile d
  obtain ⟨ds', hclose'⟩ := Draft.closeImplied_dropWhile d'
  rw [hclose, hclose']
  refine ⟨h.page, ?_, h.pending, h.depth, h.fits⟩
  dsimp only
  rw [h.verb, Option.map_map, Option.map_map]
  rfl

/-- The verb that ends is taken over on both sides, or refused on one for the names it has there. -/
theorem flushVerb (h : F.Fills d d') : F.Fills d.flushVerb d'.flushVerb := by
  obtain ⟨ds, hflush⟩ := Draft.flushVerb_adopt d
  obtain ⟨ds', hflush'⟩ := Draft.flushVerb_adopt d'
  rw [hflush, hflush', h.verb]
  refine ⟨?_, rfl, h.pending, h.depth, h.fits⟩
  cases d.verb with
  | none => exact h.page
  | some v =>
    have hdeclared : (F.openVerb v).declared = F.verb v.declared := by
      have hhead : (v.names.map F.name).headD "" = F.name (v.names.headD "") :=
        List.headD_map (f := F.name) (a := "")
      exact congrArg (Verb.mk · _ _) hhead
    dsimp only [Option.map_some, Option.elim_some]
    rw [hdeclared]
    exact h.page.adopt v.declared

/-- A block for a verb, with a scope for its children or without one. -/
theorem put (h : F.Fills d d') (v : OpenVerb) {b : Block}
    (hb : b.kind = .script → F.Bare b.expression.toList) (scope : Option Bool) :
    F.Fills (d.put v b scope) (d'.put (F.openVerb v) (F.block b) scope) where
  page := h.page.insertChild v.scope hb
  verb := by
    rw [Draft.put, Draft.put, h.page.length_eq]
    cases scope <;> rfl
  pending := h.pending
  depth := h.depth
  fits := h.fits

/-- A block for the verb at hand. -/
theorem addBlock (h : F.Fills d d') {v : OpenVerb} (hv : d.verb = some v) {b : Block}
    (hb : b.kind = .script → F.Bare b.expression.toList) :
    F.Fills (d.addBlock v b).1 (d'.addBlock (F.openVerb v) (F.block b)).1 := by
  have hv' : d'.verb = some (F.openVerb v) := by
    rw [h.verb, hv]
    rfl
  rw [← Draft.put_none hv, ← Draft.put_none hv']
  exact h.put v hb none

end Fills

/-! ### Statements -/

/-- Whether a statement is read like another one, and leaves the same behind, but for the noun. -/
structure Takes (F : Filling) (rest rest' : List Char) (r r' : Draft × Nat) : Prop where
  fills : F.Fills r.1 r'.1
  behind : rest'.drop r'.2 = F.fill (rest.drop r.2)

theorem Takes.of {rest rest' : List Char} {n n' : Nat} (h : F.Fills e e')
    (hbehind : rest'.drop n' = F.fill (rest.drop n)) : F.Takes rest rest' (e, n) (e', n') :=
  ⟨h, hbehind⟩

theorem mark_of_mem_statementStarts :
    ∀ c ∈ Draft.statementStarts, isPlain c = false ∧ c ≠ ' ' := by
  have hall : (Draft.statementStarts.all fun c => !isPlain c && c != ' ') = true := by decide
  intro c hc
  simpa using List.all_eq_true.mp hall c hc

/-- A statement ends at the same mark, with the noun in it or without. -/
theorem statementLength_fill (h : F.Bare cs) : Draft.statementLength (F.fill cs) =
    (F.fill (cs.take (Draft.statementLength cs))).length := by
  rw [Draft.statementLength, Draft.statementLength, find_fill mark_of_mem_statementStarts h]
  cases find (startsWithOneOf Draft.statementStarts) cs with
  | none => rw [Option.map_none, Option.getD_none, Option.getD_none, List.take_length]
  | some n => rfl

theorem drop_statement (h : F.Bare cs) :
    (F.fill cs).drop (Draft.statementLength (F.fill cs)) =
      F.fill (cs.drop (Draft.statementLength cs)) := by
  rw [statementLength_fill h, drop_fill]

theorem take_statement (h : F.Bare cs) :
    (F.fill cs).take (Draft.statementLength (F.fill cs)) =
      F.fill (cs.take (Draft.statementLength cs)) := by
  rw [statementLength_fill h, take_fill]

/-- No statement starts in a noun. -/
theorem statementLength_append {front : List Char}
    (h : Masked (fun c => isPlain c = true ∨ c = ' ') front) (cs : List Char) :
    Draft.statementLength (front ++ cs) = front.length + Draft.statementLength cs := by
  rw [Draft.statementLength, h.find (not_startsWithOneOf mark_of_mem_statementStarts),
    Draft.statementLength, List.length_append]
  cases find (startsWithOneOf Draft.statementStarts) cs with
  | none => rfl
  | some n => exact Nat.add_comm n front.length

/-- A declaration begins in both texts or in none. -/
theorem declares_fill : ['[', ':'] <+: F.fill cs ↔ ['[', ':'] <+: cs := by
  refine prefix_fill fun c hc => ?_
  rcases List.mem_pair.mp hc with rfl | rfl
  · rfl
  · rfl

/-- No noun begins with a mark, so a declaration is seen as one on both sides. -/
theorem declaresVerb_fill (cs : List Char) :
    Draft.declaresVerb (F.fill cs) = Draft.declaresVerb cs := by
  rw [Draft.declaresVerb, Draft.declaresVerb, Bool.eq_iff_iff, List.isPrefixOf_iff_prefix,
    List.isPrefixOf_iff_prefix, declares_fill]

variable {rest : List Char} {c : Char}

/-- What stands behind the declarations at the head of a text. -/
theorem drop_declared {names : List String} {behind : List Char}
    (h : (d.declarations [] ('[' :: rest)).2 = some (names, behind)) :
    (F.fill rest).drop (('[' :: F.fill rest).length - (F.fill behind).length - 1) =
      F.fill (rest.drop (('[' :: rest).length - behind.length - 1)) := by
  obtain ⟨front, -, hsplit⟩ := Draft.masked_declarations h
  cases front with
  | nil =>
    have hfill : F.fill behind = '[' :: F.fill rest := by
      rw [← fill_mark rfl, hsplit]
      rfl
    rw [hfill, hsplit, List.nil_append, Nat.sub_self, Nat.sub_self]
    rfl
  | cons _ front =>
    rw [List.cons_append] at hsplit
    obtain ⟨rfl, rfl⟩ := List.cons.inj hsplit
    have hbehind (front behind : List Char) :
        (front ++ behind).drop (('[' :: (front ++ behind)).length - behind.length - 1) =
          behind := by
      have heq : ('[' :: (front ++ behind)).length - behind.length - 1 = front.length := by
        simp only [List.length_cons, List.length_append]
        omega
      rw [heq, List.drop_left]
    rw [fill_append, hbehind, hbehind]

/-- A bracket at the head is closed in both texts or in none, and the same stands behind it. -/
theorem bracket_cases (hrest : F.Bare rest) :
    (Marker.bracket.lengthAt? ('[' :: rest) = none ∧
      Marker.bracket.lengthAt? ('[' :: F.fill rest) = none) ∨
    ∃ n n', Marker.bracket.lengthAt? ('[' :: rest) = some (n + 1) ∧
      Marker.bracket.lengthAt? ('[' :: F.fill rest) = some (n' + 1) ∧
      (F.fill rest).drop n' = F.fill (rest.drop n) := by
  rw [Marker.bracket, Marker.lengthAt?_paired, Marker.lengthAt?_paired]
  rcases findClose_cases '[' ']' (by decide) (by decide) hrest 0 with ⟨hnone, hnone'⟩ |
    ⟨inside, behind, rfl, hsplit, hclose, hclose'⟩
  · exact .inl ⟨by rw [hnone]; rfl, by rw [hnone']; rfl⟩
  · have hbehind (inside behind : List Char) :
        (inside ++ ']' :: behind).drop (inside.length + 1) = behind :=
      List.drop_length_add_append 1
    refine .inr ⟨_, _, by rw [hclose]; rfl, by rw [hclose']; rfl, ?_⟩
    rw [hsplit, hbehind, hbehind]

/-- What is stored of the run of an instruction or a condition. -/
theorem stored_fill (k : Authored) (h : F.Bare rest) :
    String.ofList (chainText k.mark ((F.fill rest).take (Draft.statementLength (F.fill rest)))) =
      F.name (String.ofList (chainText k.mark (rest.take (Draft.statementLength rest)))) := by
  rw [take_statement h, chainText_fill k (h.take _), name_ofList]

namespace Fills

/-- A text ends at the same quote, and its block has the noun in the hole. -/
theorem text (h : F.Fills d d') (hrest : F.Bare rest) :
    F.Takes rest (F.fill rest) (d.text ('"' :: rest)) (d'.text ('"' :: F.fill rest)) := by
  rcases findClose_cases '"' '"' (by decide) (by decide) hrest 0 with ⟨hnone, hnone'⟩ |
    ⟨inside, behind, rfl, hsplit, hclose, hclose'⟩
  · rw [Draft.text_unterminated d hnone, Draft.text_unterminated d' hnone']
    refine .of (h.reports (.report d _ _) (.report d' _ _)) ?_
    rw [List.drop_length, List.drop_length, fill_nil]
  · have hbehind (inside behind : List Char) :
        (inside ++ '"' :: behind).drop (inside.length + 1) = behind :=
      List.drop_length_add_append 1
    rw [hsplit] at hclose' ⊢
    rw [Draft.text_terminated d hclose, Draft.text_terminated d' hclose', h.verb]
    refine .of ?_ (by rw [hbehind, hbehind])
    cases hverb : d.verb with
    | none =>
      dsimp only [Option.elim_none, Option.map_none]
      exact h.reports (.report d _ _) (.report d' _ _)
    | some v =>
      dsimp only [Option.elim_some, Option.map_some]
      have hblock : F.block (.text (String.ofList (unescape inside))) =
          .text (String.ofList (unescape (F.fill inside))) := by
        rw [unescape_fill hrest.left]
        exact congrArg Block.text (F.name_ofList _)
      rw [← hblock]
      exact h.addBlock hverb fun hkind => by cases hkind

/-- An instruction is stored with the noun in its hole, if there is a verb to take it. -/
theorem instruction (h : F.Fills d d') (hrest : F.Bare rest) :
    F.Takes rest (F.fill rest) (d.instruction ('!' :: rest))
      (d'.instruction ('!' :: F.fill rest)) := by
  have hstored := stored_fill .instruction hrest
  have hfits := Bare.chainText .instruction (hrest.take (Draft.statementLength rest))
  rw [Authored.mark] at hstored hfits
  refine ⟨?_, drop_statement hrest⟩
  rw [Draft.instruction, Draft.instruction]
  dsimp only
  rw [List.drop_succ_cons, List.drop_succ_cons, List.drop_zero, List.drop_zero, hstored]
  generalize hexpression : String.ofList
    (Script.chainText '!' (rest.take (Draft.statementLength rest))) = expression
  rw [← String.toList_ofList (l := Script.chainText '!' _), hexpression] at hfits
  have hreported := h.reports (.validate d ('!' :: rest) expression)
    (.validate d' ('!' :: F.fill rest) (F.name expression))
  generalize d.validate ('!' :: rest) expression = e at hreported ⊢
  generalize d'.validate ('!' :: F.fill rest) (F.name expression) = e' at hreported ⊢
  rw [hreported.verb]
  cases hverb : e.verb with
  | none => exact hreported.reports (.report e _ _) (.report e' _ _)
  | some v => exact hreported.addBlock hverb (b := .script expression) fun _ => hfits

/-- A condition above the verbs. -/
theorem pend (h : F.Fills d d') {expression : String} (hfits : F.Bare expression.toList)
    (explicit : Bool) :
    F.Fills (d.pend expression explicit) (d'.pend (F.name expression) explicit) where
  page := h.page
  verb := h.verb
  pending := by
    rw [Draft.pend, Draft.pend, h.pending, h.depth, List.map_cons, List.filter_map]
    rfl
  depth := by rw [Draft.pend, Draft.pend, h.depth]
  fits p hp := by
    rcases List.mem_cons.mp hp with rfl | hp
    · exact hfits
    · exact h.fits p (List.mem_of_mem_filter hp)

/-- A condition is one above the verbs, or one in the body of a verb; which of them does not hang on
the noun. -/
theorem ask (h : F.Fills d d') {expression : String}
    (hfits : F.Bare expression.toList) (explicit declares : Bool) :
    F.Fills (d.ask expression explicit declares)
      (d'.ask (F.name expression) explicit declares) := by
  rw [Draft.ask, Draft.ask, h.verb]
  cases d.verb with
  | none => exact h.pend hfits explicit
  | some v =>
    dsimp only [Option.map_some]
    rw [openVerb]
    dsimp only
    split
    · exact h.flushVerb.pend hfits explicit
    · exact h.put v (b := .script expression) (fun _ => hfits) (some !explicit)

/-- A condition is stored with the noun in its hole, and its brace is found at the same place. -/
theorem condition (h : F.Fills d d') (hrest : F.Bare rest) :
    F.Takes rest (F.fill rest) (d.condition ('?' :: rest))
      (d'.condition ('?' :: F.fill rest)) := by
  have hstored : Draft.storedRun (F.fill rest) = F.name (Draft.storedRun rest) :=
    stored_fill .condition hrest
  have hfits : F.Bare (Draft.storedRun rest).toList := by
    rw [Draft.storedRun, String.toList_ofList]
    exact Bare.chainText .condition (hrest.take _)
  have hbehind := drop_statement hrest
  have hclosed := (h.reports (.validate d ('?' :: rest) (Draft.storedRun rest))
    (.validate d' ('?' :: F.fill rest) (F.name (Draft.storedRun rest)))).closeImplied
  have hexplicit : ((F.fill (rest.drop (Draft.statementLength rest))).head? == some '{') =
      ((rest.drop (Draft.statementLength rest)).head? == some '{') := by
    rw [Bool.eq_iff_iff, beq_iff_eq, beq_iff_eq, head?_fill rfl]
  rw [Draft.condition_eq, Draft.condition_eq, hstored, hbehind]
  dsimp only
  rw [hexplicit]
  cases hbrace : (rest.drop (Draft.statementLength rest)).head? == some '{' with
  | false =>
    rw [if_neg Bool.false_ne_true, if_neg Bool.false_ne_true, if_neg Bool.false_ne_true,
      if_neg Bool.false_ne_true, declaresVerb_fill]
    exact .of (hclosed.ask hfits _ _) hbehind
  | true =>
    obtain ⟨more, hmore⟩ := List.head?_eq_some_iff.mp (eq_of_beq hbrace)
    rw [hmore, fill_mark rfl] at hbehind ⊢
    rw [if_pos rfl, if_pos rfl, if_pos rfl, if_pos rfl, List.drop_succ_cons, List.drop_succ_cons,
      List.drop_zero, List.drop_zero, declaresVerb_fill]
    refine .of (hclosed.ask hfits _ _) ?_
    rw [← List.drop_drop, ← List.drop_drop, hbehind, hmore]
    rfl

/-- The names that are declared, and what stands behind them. -/
theorem declarations (d d' : Draft) (names : List String) (hcs : F.Bare cs) :
    (d'.declarations (names.map F.name) (F.fill cs)).2 =
      (d.declarations names cs).2.map fun (names, behind) =>
        (names.map F.name, F.fill behind) := by
  induction hn : cs.length using Nat.strongRecOn generalizing d d' names cs with
  | ind n ih =>
    by_cases hdeclares : ∃ rest, cs = '[' :: ':' :: rest
    · obtain ⟨rest, rfl⟩ := hdeclares
      rw [fill_mark rfl, fill_mark rfl]
      have hfill : F.fill (':' :: rest) = ':' :: F.fill rest := fill_mark rfl rest
      rcases findClose_cases '[' ']' (by decide) (by decide) hcs.tail 0 with ⟨hnone, hnone'⟩ |
        ⟨inside, behind, hsplit, hsplit', hclose, hclose'⟩
      · rw [hfill] at hnone'
        rw [Draft.declarations, Draft.declarations, hnone, hnone']
        rfl
      · cases inside with
        | nil => cases (List.cons.inj hsplit).1
        | cons _ name =>
          rw [List.cons_append] at hsplit
          obtain ⟨rfl, rfl⟩ := List.cons.inj hsplit
          rw [hfill] at hsplit' hclose'
          rw [fill_mark rfl] at hsplit' hclose'
          rw [List.cons_append] at hsplit'
          rw [hsplit'] at hclose'
          have hbehind : F.Bare behind := hcs.tail.tail.right.tail
          have hshorter : behind.length < n := by
            rw [← hn]
            simp only [List.length_cons, List.length_append]
            omega
          have hempty : (F.fill (unescape (trim name))).isEmpty =
              (unescape (trim name)).isEmpty := by
            rw [Bool.eq_iff_iff, List.isEmpty_iff, List.isEmpty_iff, fill_eq_nil_iff]
          rw [fill_append, fill_mark rfl, Draft.declarations_pair d names hclose,
            Draft.declarations_pair d' _ hclose', trim_fill, unescape_fill hcs.tail.tail.left.trim,
            hempty]
          split
          · exact ih behind.length hshorter _ _ names hbehind rfl
          · rw [← ih behind.length hshorter d d' _ hbehind rfl, List.map_append, List.map_singleton,
              name_ofList]
    · have hnone' : ∀ rest, F.fill cs ≠ '[' :: ':' :: rest := by
        intro rest heq
        obtain ⟨more, hmore⟩ := declares_fill.mp ⟨rest, heq.symm⟩
        exact hdeclares ⟨more, hmore.symm⟩
      rw [Draft.declarations_eq fun rest heq => hdeclares ⟨rest, heq⟩, Draft.declarations_eq hnone']
      rfl

/-- A verb is opened under the conditions in scope. -/
theorem opened (h : F.Fills d d') (names : List String) :
    F.Fills (d.opened names (Script.foldChains d.conditions))
      (d'.opened (names.map F.name) (Script.foldChains d'.conditions)) := by
  have hconditions : d'.conditions = d.conditions.map F.name := by
    rw [Draft.conditions, Draft.conditions, h.pending, ← List.map_reverse, List.map_map,
      List.map_map]
    rfl
  have hfits : F.Bare (Script.foldChains d.conditions).toList := by
    refine Bare.foldChains fun s hs => ?_
    obtain ⟨p, hp, rfl⟩ := List.mem_map.mp hs
    exact h.fits p (List.mem_reverse.mp hp)
  rw [hconditions, foldChains_fill]
  refine ⟨h.page.addBlock (b := .script (Script.foldChains d.conditions)) fun _ => hfits, ?_,
    h.pending, h.depth, h.fits⟩
  exact congrArg (fun root => some (OpenVerb.mk _ root [])) h.page.length_eq

/-- The names that are declared have the noun in their holes; where none is left, none is left on
the other side. -/
theorem verbDeclaration (h : F.Fills d d') (hrest : F.Bare rest) :
    F.Takes rest (F.fill rest) (d.verbDeclaration ('[' :: rest))
      (d'.verbDeclaration ('[' :: F.fill rest)) := by
  have hfill : F.fill ('[' :: rest) = '[' :: F.fill rest := fill_mark rfl rest
  rw [Draft.verbDeclaration, Draft.verbDeclaration, ← hfill, declaresVerb_fill, hfill]
  split
  · have hread := declarations d d' [] (hrest.cons (c := '[') (by decide))
    have hreported := h.reports (.declarations d [] ('[' :: rest))
      (.declarations d' [] ('[' :: F.fill rest))
    rw [hfill, List.map_nil] at hread
    rcases hpair : d.declarations [] ('[' :: rest) with ⟨e, _ | ⟨names, behind⟩⟩
    · rcases hpair' : d'.declarations [] ('[' :: F.fill rest) with ⟨e', o⟩
      rw [hpair, hpair'] at hread hreported
      obtain rfl : o = none := hread
      refine .of hreported ?_
      simp
    · rcases hpair' : d'.declarations [] ('[' :: F.fill rest) with ⟨e', o⟩
      rw [hpair, hpair'] at hread hreported
      obtain rfl : o = some (names.map F.name, F.fill behind) := hread
      have hbehind := F.drop_declared (congrArg Prod.snd hpair)
      have hflush := hreported.flushVerb
      dsimp only
      rw [List.isEmpty_map]
      split
      · exact .of hflush hbehind
      · exact .of (hflush.opened names) hbehind
  · refine .of (h.reports (.report d _ _) (.report d' _ _)) ?_
    rcases bracket_cases hrest with ⟨hnone, hnone'⟩ | ⟨n, n', hlength, hlength', hbehind⟩
    · rw [hnone, hnone']
      exact drop_statement hrest
    · rw [hlength, hlength']
      exact hbehind

/-- The conditions above the verbs that end are told by their depth alone. -/
theorem closeAbove (h : F.Fills d d') : F.Fills d.closeAbove d'.closeAbove where
  page := h.page
  verb := h.verb
  pending := by
    rw [Draft.closeAbove, Draft.closeAbove, h.pending, h.depth, List.dropWhile_map, ← List.map_drop]
    rfl
  depth := congrArg (· - 1) h.depth
  fits p hp := h.fits p ((List.dropWhile_suffix _).subset (List.mem_of_mem_drop hp))

/-- The condition above the verbs that was opened last ends, if there is one. -/
theorem unscoped (h : F.Fills d d') (near near' : List Char) : F.Takes rest (F.fill rest)
    (if d.depth = 0 then (d.report near .unmatchedBrace, 0) else (d.flushVerb.closeAbove, 0))
    (if d'.depth = 0 then (d'.report near' .unmatchedBrace, 0)
      else (d'.flushVerb.closeAbove, 0)) := by
  rw [h.depth]
  split
  · exact .of (h.reports (.report d _ _) (.report d' _ _)) rfl
  · exact .of h.flushVerb.closeAbove rfl

/-- The innermost scope of a verb ends, and another branch may begin. -/
theorem closeScope (h : F.Fills d d') :
    F.Takes rest (F.fill rest) (d.closeScope ('}' :: rest))
      (d'.closeScope ('}' :: F.fill rest)) := by
  have hclosed := h.closeImplied
  rw [Draft.closeScope, Draft.closeScope]
  generalize d.closeImplied = d at hclosed ⊢
  generalize d'.closeImplied = d' at hclosed ⊢
  have hbrace : ((F.fill rest).head? == some '{') = (rest.head? == some '{') := by
    rw [Bool.eq_iff_iff, beq_iff_eq, beq_iff_eq, head?_fill rfl]
  dsimp only
  rw [hclosed.verb]
  cases d.verb with
  | none => exact hclosed.unscoped _ _
  | some v =>
    obtain ⟨names, root, _ | ⟨s, outer⟩⟩ := v
    · exact hclosed.unscoped _ _
    · have hleave := hclosed.reports (.leave d s) (.leave d' s)
      dsimp only [Option.map_some, openVerb]
      rw [List.drop_succ_cons, List.drop_succ_cons, List.drop_zero, List.drop_zero, hbrace]
      cases hopens : rest.head? == some '{' with
      | false =>
        exact .of (hleave.setVerb (some ⟨names, root, outer⟩)) rfl
      | true =>
        obtain ⟨more, rfl⟩ := List.head?_eq_some_iff.mp (eq_of_beq hopens)
        rw [fill_mark rfl]
        exact .of (hleave.put ⟨names, root, outer⟩ (b := .otherwise) (fun hkind => by cases hkind)
          (some false)) rfl

end Fills

/-- Every statement is read alike. -/
theorem fills_step (h : F.Fills d d') (hcs : F.Bare (c :: rest)) : ∃ c' rest',
    F.fill (c :: rest) = c' :: rest' ∧ F.Takes rest rest' (d.step c rest) (d'.step c' rest') := by
  have hstray {c : Char} (hc : isPlain c = true) (d : Draft) (rest : List Char) :
      d.step c rest =
        (d.report (c :: rest) (.unexpectedCharacter c), Draft.statementLength rest) := by
    have hne {m : Char} (hm : isPlain m = false) : c ≠ m := Stroke.ne_of_isPlain hc hm
    rw [Draft.step, if_neg (by simp [(isPlain_cases hc).2.2.2.2]), if_neg (hne rfl),
      if_neg (hne rfl), if_neg (hne rfl), if_neg (hne rfl), if_neg (hne rfl)]
  by_cases hhole : c = F.hole
  · subst hhole
    obtain ⟨e, more, hnoun, he⟩ := F.plain.exists_cons
    refine ⟨e, more ++ F.fill rest, by rw [fill_hole, hnoun]; rfl, ?_⟩
    rw [hstray F.shown, hstray he]
    refine .of (h.reports (.report d _ _) (.report d' _ _)) ?_
    have hmasked := F.noun_masked
    rw [hnoun] at hmasked
    rw [statementLength_append (hmasked.of_char (isPlain_cases he).2.1).2, ← List.drop_drop,
      List.drop_left, drop_statement hcs.tail]
  · refine ⟨c, F.fill rest, fill_char hhole rest, ?_⟩
    rw [Draft.step, Draft.step]
    split_ifs with hspace htext hinstruction hcondition hverb hclose
    · exact .of h rfl
    · subst htext
      exact h.text hcs.tail
    · subst hinstruction
      exact h.instruction hcs.tail
    · subst hcondition
      exact h.condition hcs.tail
    · subst hverb
      exact h.verbDeclaration hcs.tail
    · subst hclose
      exact h.closeScope
    · exact .of (h.reports (.report d _ _) (.report d' _ _)) (drop_statement hcs.tail)

/-- So are all statements. -/
theorem fills_run (h : F.Fills d d') (hcs : F.Bare cs) :
    F.Fills (d.run cs) (d'.run (F.fill cs)) := by
  induction hn : cs.length using Nat.strongRecOn generalizing d d' cs with
  | ind n ih =>
    cases cs with
    | nil =>
      rw [fill_nil, Draft.run, Draft.run]
      exact h
    | cons c rest =>
      obtain ⟨c', rest', hfill, htakes⟩ := fills_step h hcs
      have hshorter : (rest.drop (d.step c rest).2).length < n := by
        rw [List.length_drop, ← hn, List.length_cons]
        omega
      have hmore := ih _ hshorter htakes.fills (hcs.tail.drop _) rfl
      rw [← htakes.behind] at hmore
      rw [hfill, Draft.run, Draft.run]
      exact hmore

/-- The end of the page is the same on both sides. -/
theorem fills_finish (h : F.Fills d d') : F.Fills d.finish d'.finish := by
  have hflush := h.flushVerb
  rw [Draft.finish, Draft.finish, hflush.depth]
  split
  · exact hflush
  · exact hflush.reports (.report _ _ _) (.report _ _ _)

end Filling

end Gamebook
