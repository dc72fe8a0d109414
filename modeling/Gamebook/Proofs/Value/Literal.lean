import Gamebook.Proofs.Value.Proper
import Gamebook.Value.Literal
import Mathlib.Data.List.DropRight

/-!
# Reading literals back

What is read from a literal is a proper value (`Value.proper_ofLiteral`). A proper value of which no
atom starts or ends with white space is read back from its literal as it was, the atoms in their
order (`Value.ofLiteral_literal`). Reading that refuses a `#` without its numeral reads nothing in
another way (`Value.ofLiteral?_eq_ok_iff`).
-/

namespace Gamebook

namespace Decimal

/-! ### Numerals -/

/-- A numeral that starts with a digit has no sign. -/
theorem toInt?_of_isDigit {c : Char} (hc : c.isDigit) (cs : List Char) :
    toInt? (c :: cs) = (toNat? (c :: cs)).map fun n => (n : Int) := by
  have hminus : c ≠ '-' := by
    rintro rfl
    exact absurd hc (by decide)
  have hplus : c ≠ '+' := by
    rintro rfl
    exact absurd hc (by decide)
  unfold toInt?
  split
  next heq => exact absurd (List.cons.inj heq).1 hminus
  next heq => exact absurd (List.cons.inj heq).1 hplus
  next => rfl

theorem isDigit_of_mem_ofNat {n : Nat} {c : Char} (hc : c ∈ ofNat n) : c.isDigit :=
  Nat.isDigit_of_mem_toDigits (by decide) (by decide) hc

theorem toInt?_ofInt (n : Int) : toInt? (ofInt n) = some n := by
  cases n with
  | ofNat n =>
    obtain ⟨c, cs, hcs⟩ : ∃ c cs, ofNat n = c :: cs :=
      List.exists_cons_of_ne_nil Nat.toDigits_ne_nil
    have hdigit : c.isDigit := isDigit_of_mem_ofNat (hcs ▸ List.mem_cons_self)
    rw [ofInt, hcs, toInt?_of_isDigit hdigit, ← hcs, toNat?_ofNat]
    rfl
  | negSucc n =>
    rw [ofInt, toInt?, toNat?_ofNat, Int.negSucc_eq]
    rfl

/-- A word is the word equal to itself. -/
theorem word?_toInt (n : Int64) : word? n.toInt = some n := by
  have hmin := n.le_toInt
  have hmax := n.toInt_lt
  have hrange : (minWord ≤ n.toInt && n.toInt ≤ maxWord) = true := by
    refine Bool.and_eq_true_iff.mpr ⟨decide_eq_true hmin, decide_eq_true ?_⟩
    unfold maxWord
    omega
  rw [word?, if_pos hrange, Int64.ofInt_toInt]

/-- A word is read back from its numeral. -/
theorem toWord?_ofWord (n : Int64) : toWord? (ofWord n) = some n := by
  rw [toWord?, ofWord, toInt?_ofInt, Option.bind_some, word?_toInt]

/-- In a numeral there are only digits and perhaps a sign. -/
theorem mem_ofInt {n : Int} {c : Char} (hc : c ∈ ofInt n) : c.isDigit ∨ c = '-' := by
  cases n with
  | ofNat n => exact .inl (isDigit_of_mem_ofNat hc)
  | negSucc n =>
    rcases List.mem_cons.mp hc with rfl | hc
    · exact .inr rfl
    · exact .inl (isDigit_of_mem_ofNat hc)

end Decimal

namespace Text

/-! ### Trimmed texts -/

theorem length_trim_le (cs : List Char) : (trim cs).length ≤ (trimStart cs).length := by
  have hle := (List.dropWhile_suffix isSpace (l := (trimStart cs).reverse)).length_le
  rwa [List.length_reverse, ← List.length_reverse] at hle

/-- A text that is its own trim does not start with white space. -/
theorem not_isSpace_of_trim_eq {c : Char} {cs : List Char} (h : trim (c :: cs) = c :: cs) :
    isSpace c = false := by
  by_contra hspace
  rw [Bool.not_eq_false] at hspace
  have hdrop : trimStart (c :: cs) = trimStart cs := by
    rw [trimStart, List.dropWhile_cons_of_pos hspace]
    rfl
  have hle := length_trim_le (c :: cs)
  have hle' := length_trimStart_le cs
  rw [h, hdrop, List.length_cons] at hle
  omega

theorem isSpace_of_isDigit {c : Char} (hc : c.isDigit) : isSpace c = false := by
  rw [Char.isDigit, Bool.and_eq_true, decide_eq_true_eq, decide_eq_true_eq] at hc
  have hlow : 48 ≤ c.toNat := hc.1
  have hhigh : c.toNat ≤ 57 := hc.2
  simp only [isSpace, Bool.or_eq_false_iff, Bool.and_eq_false_iff, decide_eq_false_iff_not,
    beq_eq_false_iff_ne]
  omega

/-- A text without white space is its own trim. -/
theorem trim_eq_self {cs : List Char} (h : ∀ c ∈ cs, isSpace c = false) : trim cs = cs := by
  have hdrop : ∀ ds : List Char, (∀ c ∈ ds, isSpace c = false) → ds.dropWhile isSpace = ds := by
    rintro (_ | ⟨d, ds⟩) hds
    · rfl
    · exact List.dropWhile_cons_of_neg (by simp [hds d List.mem_cons_self])
  rw [trim, trimEnd, trimStart, hdrop cs h, hdrop _ fun c hc => h c (List.mem_reverse.mp hc),
    List.reverse_reverse]

/-- What was trimmed is its own trim. -/
theorem trim_trim (cs : List Char) : trim (trim cs) = trim cs := by
  have hstart : trimStart (trim cs) = trim cs := by
    refine List.dropWhile_eq_self_iff.mpr fun hl => ?_
    -- it begins with the first character that is no white space
    have hfront : trim cs <+: trimStart cs := List.rdropWhile_prefix isSpace (trimStart cs)
    rw [hfront.getElem hl]
    exact List.dropWhile_get_zero_not isSpace cs (Nat.lt_of_lt_of_le hl hfront.length_le)
  rw [trim, hstart]
  exact List.rdropWhile_idempotent isSpace (trimStart cs)

end Text

namespace Value

/-- No atom starts or ends with white space. -/
def Trimmed (v : Value) : Prop :=
  ∀ atom ∈ v.atoms, Text.trim atom.toList = atom.toList

instance (v : Value) : Decidable v.Trimmed :=
  inferInstanceAs (Decidable (∀ atom ∈ v.atoms, Text.trim atom.toList = atom.toList))

variable {v : Value}

/-! ### The pieces of a literal -/

/-- A character without a meaning of its own is taken into the piece. -/
theorem pieces_cons {numeric : Bool} {current : List Char} {c : Char} (hescape : c ≠ '\\')
    (hcomma : c ≠ ',') (hmark : c ≠ '#') (rest : List Char) :
    pieces numeric current (c :: rest) = pieces numeric (current ++ [c]) rest := by
  rw [pieces]
  all_goals grind

/-- Behind its first character an atom is read back from its escaped form. -/
theorem pieces_escapeAtom {current : List Char} (hcurrent : Text.isBlank current = false)
    (cs rest : List Char) :
    pieces false current (escapeAtom false cs ++ rest) = pieces false (current ++ cs) rest := by
  induction cs generalizing current with
  | nil => simp [escapeAtom]
  | cons c cs ih =>
    have hnext : Text.isBlank (current ++ [c]) = false := by
      simp only [Text.isBlank, List.all_append] at hcurrent ⊢
      rw [hcurrent, Bool.false_and]
    have hstep : pieces false current (escapeAtom false (c :: cs) ++ rest) =
        pieces false (current ++ [c]) (escapeAtom false cs ++ rest) := by
      rw [escapeAtom]
      split
      next hc => rw [hc]; rfl
      next hescape =>
        split
        next hc => rw [hc]; rfl
        next hcomma =>
          split
          next hc => rw [hc]; rfl
          next =>
            by_cases hmark : c = '#'
            · rw [hmark]
              simp [pieces, hcurrent]
            · simp only [Bool.false_and, Bool.false_eq_true, if_false, List.cons_append,
                List.nil_append]
              exact pieces_cons hescape hcomma hmark _
    rw [hstep, ih hnext, List.append_assoc]
    rfl

/-- A trimmed atom is read back from its escaped form. -/
theorem pieces_atom {cs : List Char} (hne : cs ≠ []) (htrim : Text.trim cs = cs)
    (rest : List Char) :
    pieces false [] (escapeAtom true cs ++ ',' :: rest) = .atom cs :: pieces false [] rest := by
  obtain ⟨c, cs, rfl⟩ := List.exists_cons_of_ne_nil hne
  have hspace : Text.isSpace c = false := Text.not_isSpace_of_trim_eq htrim
  have hblank : Text.isBlank [c] = false := by simp [Text.isBlank, hspace]
  -- no first character is blank, so that a `#` behind it is one of the atom
  have hstep : pieces false [] (escapeAtom true (c :: cs) ++ ',' :: rest) =
      pieces false [c] (escapeAtom false cs ++ ',' :: rest) := by
    rw [escapeAtom]
    split
    next hc => rw [hc]; rfl
    next hescape =>
      split
      next hc => rw [hc]; rfl
      next hcomma =>
        split
        next hc => rw [hc]; rfl
        next =>
          split
          next hc => rw [show c = '#' by simpa using hc]; rfl
          next hmark => exact pieces_cons hescape hcomma (by simpa using hmark) _
  rw [hstep, pieces_escapeAtom hblank]
  simp only [pieces, Piece.ofText, Bool.false_eq_true, if_false, List.cons_append, List.nil_append,
    htrim]

/-- Behind a `#` a numeral is read back. -/
theorem pieces_numeral (current : List Char) {cs : List Char}
    (hcs : ∀ c ∈ cs, c.isDigit ∨ c = '-') :
    pieces true current cs = [.number (Text.trim (current ++ cs))] := by
  induction cs generalizing current with
  | nil => simp [pieces, Piece.ofText]
  | cons c cs ih =>
    have hc := hcs c List.mem_cons_self
    have hplain : c ≠ '\\' ∧ c ≠ ',' ∧ c ≠ '#' := by
      refine ⟨?_, ?_, ?_⟩ <;> rintro rfl <;> exact absurd hc (by decide)
    rw [pieces_cons hplain.1 hplain.2.1 hplain.2.2,
      ih _ fun d hd => hcs d (List.mem_cons_of_mem c hd), List.append_assoc]
    rfl

/-- The pieces of the literal of a value are its atoms and its integer. -/
theorem pieces_literalChars (hproper : v.Proper) (htrimmed : v.Trimmed) :
    pieces false [] v.literalChars =
      v.atoms.map (fun atom => .atom atom.toList) ++ [.number (Decimal.ofWord v.integer)] := by
  have hnumber : pieces false [] ('#' :: Decimal.ofWord v.integer) =
      [.number (Decimal.ofWord v.integer)] := by
    have hnospace : ∀ c ∈ Decimal.ofWord v.integer, Text.isSpace c = false := by
      intro c hc
      rcases Decimal.mem_ofInt hc with hdigit | rfl
      · exact Text.isSpace_of_isDigit hdigit
      · decide
    have hsharp : pieces false [] ('#' :: Decimal.ofWord v.integer) =
        pieces true [] (Decimal.ofWord v.integer) := by simp [pieces, Text.isBlank]
    have hchars : ∀ c ∈ Decimal.ofWord v.integer, c.isDigit ∨ c = '-' := fun c hc =>
      Decimal.mem_ofInt hc
    rw [hsharp, pieces_numeral [] hchars, List.nil_append, Text.trim_eq_self hnospace]
  have hatoms : ∀ (atoms : List String) (rest : List Char),
      (∀ atom ∈ atoms, atom ≠ "" ∧ Text.trim atom.toList = atom.toList) →
      pieces false [] ((atoms.flatMap fun atom => escapeAtom true atom.toList ++ [',']) ++ rest) =
        atoms.map (fun atom => .atom atom.toList) ++ pieces false [] rest := by
    intro atoms rest hatoms
    induction atoms with
    | nil => rfl
    | cons atom atoms ih =>
      obtain ⟨hne, htrim⟩ := hatoms atom List.mem_cons_self
      have hlist : atom.toList ≠ [] := by simpa using hne
      rw [List.flatMap_cons, List.append_assoc, List.append_assoc, List.singleton_append,
        pieces_atom hlist htrim, ih fun a ha => hatoms a (List.mem_cons_of_mem atom ha)]
      rfl
  rw [literalChars, hatoms _ _ fun atom hatom => ⟨hproper.ne_empty atom hatom, htrimmed atom hatom⟩,
    hnumber]

/-! ### Reading a literal -/

theorem Proper.absorb (h : v.Proper) (piece : Piece) : (v.absorb piece).Proper := by
  cases piece with
  | atom text => exact h.add (String.ofList text)
  | number numeral =>
    rw [Value.absorb]
    split
    · exact h.congr rfl
    · exact h

/-- Whatever a literal says, the value read from it is proper. -/
theorem proper_ofLiteral (s : String) : (ofLiteral s).Proper := by
  have hfold : ∀ (ps : List Piece) {v : Value}, v.Proper → (ps.foldl Value.absorb v).Proper := by
    intro ps
    induction ps with
    | nil => exact id
    | cons p ps ih => exact fun hv => ih (hv.absorb p)
  exact (hfold _ (proper_of_nil rfl)).congr rfl

/-- Atoms of a set are taken up one after the other. -/
theorem foldl_absorb_atoms (v : Value) {atoms : List String}
    (hne : ∀ atom ∈ atoms, atom ≠ "") (hnodup : (v.atoms ++ atoms).Nodup) :
    ((atoms.map fun atom => Piece.atom atom.toList).foldl absorb v).clearDirty =
      { atoms := v.atoms ++ atoms, integer := v.integer } := by
  induction atoms generalizing v with
  | nil => simp [clearDirty]
  | cons atom atoms ih =>
    have hempty : atom.isEmpty = false := by
      simpa using hne atom List.mem_cons_self
    have hfresh : v.contains atom = false := by
      rw [contains, List.contains_eq_mem, decide_eq_false_iff_not]
      intro hmem
      exact (List.nodup_append.mp hnodup).2.2 atom hmem atom List.mem_cons_self rfl
    have hadd : absorb v (.atom atom.toList) =
        { v with atoms := v.atoms ++ [atom], dirty := true } := by
      simp [absorb, add, hempty, hfresh]
    rw [List.map_cons, List.foldl_cons, hadd,
      ih _ (fun a ha => hne a (List.mem_cons_of_mem atom ha)) (by simpa using hnodup)]
    simp

/-- A value is read back from its literal. -/
theorem ofLiteral_literal (hproper : v.Proper) (htrimmed : v.Trimmed) :
    ofLiteral v.literal = v.clearDirty := by
  have hfold := foldl_absorb_atoms empty hproper.ne_empty
    (show (empty.atoms ++ v.atoms).Nodup from hproper.nodup)
  rw [ofLiteral, literal, String.toList_ofList, pieces_literalChars hproper htrimmed,
    List.foldl_append, List.foldl_cons, List.foldl_nil, absorb, Decimal.toWord?_ofWord]
  simp only [clearDirty, mk.injEq, and_true] at hfold ⊢
  exact hfold.1.trans (List.nil_append _)

/-! ### Literals that are read in full -/

/-- Every `#` among some pieces has its numeral. -/
def Readable (ps : List Piece) : Prop :=
  ∀ numeral, Piece.number numeral ∈ ps → (Decimal.toWord? numeral).isSome

theorem foldlM_absorb?_eq_ok_iff {ps : List Piece} {v w : Value} :
    ps.foldlM absorb? v = .ok w ↔ Readable ps ∧ ps.foldl absorb v = w := by
  induction ps generalizing v with
  | nil =>
    have hnil : Readable [] := fun _ h => absurd h List.not_mem_nil
    exact ⟨fun h => ⟨hnil, Except.ok.inj h⟩, fun h => congrArg Except.ok h.2⟩
  | cons piece ps ih =>
    -- a piece that is not refused is taken up, and says nothing about the ones behind it
    have htaken (hpiece : v.absorb? piece = .ok (v.absorb piece))
        (hhead : Readable (piece :: ps) ↔ Readable ps) :
        (piece :: ps).foldlM absorb? v = .ok w ↔
          Readable (piece :: ps) ∧ (piece :: ps).foldl absorb v = w := by
      rw [List.foldlM_cons, hpiece, hhead, List.foldl_cons, ← ih]
      rfl
    cases piece with
    | atom text => exact htaken rfl (by simp [Readable])
    | number numeral =>
      cases hn : Decimal.toWord? numeral with
      | some n => exact htaken (by simp [absorb?, absorb, hn]) (by simp [Readable, hn])
      | none =>
        have hpiece : v.absorb? (.number numeral) = .error ⟨String.ofList numeral⟩ := by
          rw [absorb?, hn]
        rw [List.foldlM_cons, hpiece]
        refine iff_of_false (fun h => nomatch h) fun h => ?_
        simpa [hn] using h.1 numeral List.mem_cons_self

/-- A literal is refused if some `#` has no numeral, and read as any other one if not. -/
theorem ofLiteral?_eq_ok_iff {s : String} {v : Value} :
    ofLiteral? s = .ok v ↔ Readable (pieces false [] s.toList) ∧ ofLiteral s = v := by
  rw [ofLiteral?, ofLiteral]
  cases hread : (pieces false [] s.toList).foldlM absorb? empty with
  | error e =>
    refine iff_of_false (fun h => nomatch h) fun h => ?_
    rw [foldlM_absorb?_eq_ok_iff.mpr ⟨h.1, rfl⟩] at hread
    cases hread
  | ok w =>
    obtain ⟨hreadable, hfold⟩ := foldlM_absorb?_eq_ok_iff.mp hread
    rw [hfold]
    exact ⟨fun h => ⟨hreadable, Except.ok.inj h⟩, fun h => congrArg Except.ok h.2⟩

end Value

end Gamebook
