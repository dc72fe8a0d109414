import Gamebook.Page
import Gamebook.Play.Operand
import Gamebook.Proofs.Session.RoundTrip

/-!
# Atoms of values

The operations on values make new atoms of old ones in few ways: atoms are kept, put one behind the
other, written into a literal and read from it again with the white space around them gone. A kind
of texts that lasts through all of these is *robust*, and a value all of whose atoms are of such a
kind stays so (`Value.Says`). That a text does not end in a carriage return is robust, and so is
being a line.
-/

namespace Gamebook

namespace Value

variable {v w : Value} {a : String}

/-! ### Where atoms come from -/

/-- An atom that is there after an addition was there before, or is the one added. -/
theorem mem_add {atom : String} (h : a ∈ (v.add atom).1.atoms) :
    a ∈ v.atoms ∨ a = atom ∧ a ≠ "" := by
  rcases v.add_cases atom with ⟨heq, -⟩ | ⟨heq, hne, -⟩
  · rw [heq] at h
    exact .inl h
  · rw [heq] at h
    refine (List.mem_append.mp h).imp_right fun h => ?_
    obtain rfl := List.mem_singleton.mp h
    exact ⟨rfl, hne⟩

/-- The same of a list of additions, in which empty atoms are passed over. -/
theorem mem_addAll {atoms : List String} (h : a ∈ (v.addAll atoms).1.atoms) :
    a ∈ v.atoms ∨ a ∈ atoms ∧ a ≠ "" := by
  induction atoms generalizing v with
  | nil => exact .inl h
  | cons atom atoms ih =>
    rcases ih (v := (v.add atom).1) h with h | ⟨h, hne⟩
    · rcases mem_add h with h | ⟨rfl, hne⟩
      · exact .inl h
      · exact .inr ⟨List.mem_cons_self, hne⟩
    · exact .inr ⟨List.mem_cons_of_mem atom h, hne⟩

/-- Taking atoms away brings no new ones. -/
theorem mem_keep {p : String → Bool} (h : a ∈ (v.keep p).1.atoms) : a ∈ v.atoms := by
  rcases v.keep_cases p with ⟨heq, -⟩ | ⟨heq, -⟩
  · rwa [heq] at h
  · rw [heq] at h
    exact List.mem_of_mem_filter h

/-- Concatenation leaves the atoms, takes over those of the right value, or joins an atom of
each. -/
theorem mem_concat (h : a ∈ (v.concat w).1.atoms) :
    a ∈ v.atoms ∨ (a ∈ w.atoms ∧ a ≠ "") ∨ ∃ x ∈ v.atoms, ∃ y ∈ w.atoms, x ++ y = a := by
  rcases v.concat_cases w with ⟨heq, -⟩ | ⟨heq, -⟩ | ⟨heq, -⟩
  · rw [heq] at h
    exact .inl h
  · rw [heq] at h
    exact (mem_addAll h).imp_right .inl
  · rw [heq] at h
    exact .inr (.inr (mem_products.mp h))

/-- The atoms of a literal are pieces of it. -/
theorem mem_ofLiteral {s : String} (h : a ∈ (ofLiteral s).atoms) :
    a ≠ "" ∧ Piece.atom a.toList ∈ pieces false [] s.toList := by
  -- absorbing piece after piece, an atom is there already or comes with one of them
  have hfold : ∀ (ps : List Piece) {v : Value}, a ∈ (ps.foldl absorb v).atoms →
      a ∈ v.atoms ∨ a ≠ "" ∧ Piece.atom a.toList ∈ ps := by
    intro ps
    induction ps with
    | nil => exact fun h => .inl h
    | cons piece ps ih =>
      intro v h
      rcases ih h with h | ⟨hne, h⟩
      · cases piece with
        | atom text =>
          rcases mem_add h with h | ⟨rfl, hne⟩
          · exact .inl h
          · rw [String.toList_ofList]
            exact .inr ⟨hne, List.mem_cons_self⟩
        | number numeral =>
          rw [absorb] at h
          split at h <;> exact .inl h
      · exact .inr ⟨hne, List.mem_cons_of_mem piece h⟩
  rcases hfold _ (v := .empty) h with h | h
  · cases h
  · exact h

end Value

/-! ### Literals -/

namespace Value

variable {v : Value}

/-- An atom of a literal is trimmed. -/
theorem eq_trim_of_mem_pieces {numeric : Bool} {current cs text : List Char}
    (h : Piece.atom text ∈ pieces numeric current cs) : ∃ cs, text = Text.trim cs := by
  have hlast : ∀ {numeric : Bool} {current : List Char},
      Piece.atom text = .ofText numeric current → ∃ cs, text = Text.trim cs := by
    intro numeric current h
    rw [Piece.ofText] at h
    split at h
    · cases h
    · cases h
      exact ⟨_, rfl⟩
  fun_induction pieces numeric current cs with
  | case1 => exact hlast (List.mem_singleton.mp h)
  | case2 => exact hlast (List.mem_singleton.mp h)
  | case3 _ _ _ _ ih => exact ih h
  | case4 _ _ _ ih =>
    rcases List.mem_cons.mp h with h | h
    · exact hlast h
    · exact ih h
  | case5 _ _ _ _ ih => exact ih h
  | case6 _ _ _ _ ih => exact ih h
  | case7 _ _ _ _ _ _ _ _ ih => exact ih h

/-- A literal without line feeds, escaped ones included, has none in its atoms. -/
theorem feed_not_mem_piece {numeric : Bool} {current cs text : List Char}
    (hcs : Text.Feedless cs) (hfeed : '\n' ∉ cs) (hcurrent : '\n' ∉ current)
    (h : Piece.atom text ∈ pieces numeric current cs) : '\n' ∉ text := by
  have hlast : ∀ {numeric : Bool} {current : List Char}, '\n' ∉ current →
      Piece.atom text = .ofText numeric current → '\n' ∉ text := by
    intro numeric current hcurrent h
    rw [Piece.ofText] at h
    split at h
    · cases h
    · cases h
      exact fun hmem => hcurrent (Text.mem_of_mem_trim hmem)
  fun_induction pieces numeric current cs with
  | case1 => exact hlast hcurrent (List.mem_singleton.mp h)
  | case2 => exact hlast (by simpa using hcurrent) (List.mem_singleton.mp h)
  | case3 _ _ c rest ih =>
    simp only [List.mem_cons, not_or] at hfeed
    obtain ⟨hn, hrest⟩ := hcs.tail_escape
    refine ih hrest hfeed.2.2 ?_ h
    rw [Text.escaped, if_neg hn]
    simpa using ⟨hcurrent, hfeed.2.1⟩
  | case4 _ _ rest ih =>
    rcases List.mem_cons.mp h with h | h
    · exact hlast hcurrent h
    · exact ih (hcs.tail (by decide)) (by simpa using hfeed) (by simp) h
  | case5 _ _ rest hblank ih =>
    exact ih (hcs.tail (by decide)) (by simpa using hfeed) (by simp) h
  | case6 _ _ rest hblank ih =>
    exact ih (hcs.tail (by decide)) (by simpa using hfeed) (by simpa using hcurrent) h
  | case7 _ _ c rest hend hescape _ _ ih =>
    simp only [List.mem_cons, not_or] at hfeed
    have hc := Text.ne_escape_of_rules hend hescape
    exact ih (hcs.tail hc) hfeed.2 (by simpa using ⟨hcurrent, hfeed.1⟩) h

theorem feedless_escapeAtom {first : Bool} {cs rest : List Char} (hfeed : '\n' ∉ cs)
    (hrest : Text.Feedless rest) : Text.Feedless (escapeAtom first cs ++ rest) := by
  induction cs generalizing first with
  | nil => exact hrest
  | cons c cs ih =>
    simp only [List.mem_cons, not_or] at hfeed
    have hmore : Text.Feedless (escapeAtom false cs ++ rest) := ih hfeed.2
    rw [escapeAtom]
    split
    · exact .escape (by decide) hmore
    next hc =>
      split
      · exact .escape (by decide) hmore
      · split
        next hnewline => exact absurd hnewline.symm hfeed.1
        next =>
          split
          · exact .escape (by decide) hmore
          · exact .char hc hmore

/-- The literal of a value without line feeds has none, nor an escaped one. -/
theorem feedless_literal (h : ∀ a ∈ v.atoms, '\n' ∉ a.toList) :
    Text.Feedless v.literal.toList := by
  -- the number at the end is written with digits and a sign
  have hnumber : ∀ c ∈ '#' :: Decimal.ofWord v.integer, c ≠ '\\' := by
    intro c hc
    rcases List.mem_cons.mp hc with rfl | hc
    · decide
    · rcases Decimal.mem_ofInt hc with hdigit | rfl
      · rintro rfl
        exact absurd hdigit (by decide)
      · decide
  have hatoms : ∀ (atoms : List String) {rest : List Char}, (∀ a ∈ atoms, '\n' ∉ a.toList) →
      Text.Feedless rest →
        Text.Feedless ((atoms.flatMap fun a => escapeAtom true a.toList ++ [',']) ++ rest) := by
    intro atoms rest hatoms hrest
    induction atoms with
    | nil => exact hrest
    | cons a atoms ih =>
      rw [List.flatMap_cons, List.append_assoc, List.append_assoc]
      refine feedless_escapeAtom (hatoms a List.mem_cons_self) (.char (by decide) ?_)
      exact ih fun b hb => hatoms b (List.mem_cons_of_mem a hb)
  rw [literal, String.toList_ofList, literalChars]
  refine hatoms v.atoms h ?_
  have hend := Text.Feedless.prepend hnumber .nil
  rwa [List.append_nil] at hend

end Value

/-! ### Robust kinds of texts -/

/-- A kind of texts to which all belong that have no line breaks, and which lasts when texts are put
together, when a value is written and read again, and when a name is written in another case. -/
structure Text.Robust (Q : String → Prop) : Prop where
  unbroken : ∀ {s : String}, Unbroken s.toList → Q s
  append : ∀ {s t : String}, Q s → Q t → Q (s ++ t)
  reread : ∀ {v : Value}, (∀ a ∈ v.atoms, Q a) → ∀ a ∈ (Value.ofLiteral v.literal).atoms, Q a
  recase : ∀ {s t : String}, sameName s t → Q s → Q t

namespace Text

/-- What ends in a text without a return at its end has none at its end either. -/
theorem NoReturn.append {s t : String} (hs : NoReturn s) (ht : NoReturn t) :
    NoReturn (s ++ t) := by
  rw [NoReturn, String.toList_append, List.getLast?_append]
  cases hlast : t.toList.getLast? with
  | none => exact hs
  | some c =>
    rw [NoReturn, hlast] at ht
    exact ht

/-- A literal is cut into trimmed pieces, and a carriage return is white space. -/
theorem noReturn_ofLiteral {s a : String} (h : a ∈ (Value.ofLiteral s).atoms) : NoReturn a := by
  obtain ⟨cs, hcs⟩ := Value.eq_trim_of_mem_pieces (Value.mem_ofLiteral h).2
  rw [NoReturn, hcs]
  exact getLast?_trim_ne_return cs

/-- No letter is written as a line break in another case. -/
theorem eq_of_toLower_eq {c d : Char} (hd : d = '\n' ∨ d = '\r') (h : c.toLower = d.toLower) :
    c = d := by
  have hself : d.toLower = d := by rcases hd with rfl | rfl <;> decide
  have hlow : d.val.toNat < 65 := by rcases hd with rfl | rfl <;> decide
  rw [hself] at h
  delta Char.toLower at h
  split at h
  next hletter =>
    -- a capital letter becomes a small one, which is no line break
    have hfirst : 65 ≤ c.val.toNat := UInt32.le_iff_toNat_le.mp hletter.1
    have hlast : c.val.toNat ≤ 90 := UInt32.le_iff_toNat_le.mp hletter.2
    have hval : (c.val + 32).toNat = d.val.toNat := congrArg (fun e : Char => e.val.toNat) h
    rw [UInt32.toNat_add, show (32 : UInt32).toNat = 32 from rfl] at hval
    omega
  next => exact h

/-- Texts that do not end in a carriage return. -/
theorem robust_noReturn : Robust NoReturn where
  unbroken h := (Session.isLine_of_unbroken h).no_return
  append := NoReturn.append
  reread _ _ := noReturn_ofLiteral
  recase {s t} hsame hs := by
    have hmap : (s.toList.map Char.toLower).getLast? = (t.toList.map Char.toLower).getLast? :=
      congrArg List.getLast? (beq_iff_eq.mp hsame)
    intro hlast
    rw [List.getLast?_map, List.getLast?_map, hlast] at hmap
    obtain ⟨c, hc, hlower⟩ := Option.map_eq_some_iff.mp hmap
    rw [eq_of_toLower_eq (.inr rfl) hlower] at hc
    exact hs hc

/-- Texts that are lines. -/
theorem robust_isLine : Robust Session.IsLine where
  unbroken := Session.isLine_of_unbroken
  append hs ht := by
    refine ⟨?_, NoReturn.append hs.no_return ht.no_return⟩
    rw [String.toList_append, List.mem_append, not_or]
    exact ⟨hs.no_feed, ht.no_feed⟩
  reread {v} hv a ha := by
    -- the literal escapes what is in its atoms, and the escapes in it hide no line feed
    have hliteral := Value.feedless_literal fun a ha => (hv a ha).no_feed
    have hpiece := (Value.mem_ofLiteral ha).2
    exact ⟨Value.feed_not_mem_piece hliteral v.isLine_literal.no_feed (by simp) hpiece,
      noReturn_ofLiteral ha⟩
  recase {s t} hsame hs := by
    refine ⟨fun hfeed => ?_, robust_noReturn.recase hsame hs.no_return⟩
    have hmem : '\n'.toLower ∈ s.toList.map Char.toLower := by
      rw [beq_iff_eq.mp hsame]
      exact List.mem_map_of_mem hfeed
    obtain ⟨c, hc, hlower⟩ := List.mem_map.mp hmem
    rw [eq_of_toLower_eq (.inl rfl) hlower] at hc
    exact hs.no_feed hc

theorem Robust.empty {Q : String → Prop} (hQ : Robust Q) : Q "" :=
  hQ.unbroken (by simp [Unbroken])

end Text

/-! ### Values of robust atoms -/

/-- What is known of the atoms of a value; none of them is empty. -/
def Value.Says (Q : String → Prop) (v : Value) : Prop :=
  ∀ a ∈ v.atoms, a ≠ "" ∧ Q a

namespace Value

variable {Q : String → Prop} {v w : Value}

theorem says_of_nil (h : v.atoms = []) : v.Says Q := by
  simp [Says, h]

/-- What is known of a value depends on its atoms alone. -/
theorem Says.congr (hv : v.Says Q) (h : w.atoms = v.atoms) : w.Says Q := by
  rw [Says, h]
  exact hv

theorem Says.addAll (hv : v.Says Q) {atoms : List String} (h : ∀ a ∈ atoms, Q a) :
    (v.addAll atoms).1.Says Q := by
  intro a ha
  rcases mem_addAll ha with ha | ⟨ha, hne⟩
  · exact hv a ha
  · exact ⟨hne, h a ha⟩

/-- A value made of a list knows of its atoms what was known of the list. -/
theorem says_ofAtoms {atoms : List String} (h : ∀ a ∈ atoms, Q a) : (ofAtoms atoms).Says Q :=
  (says_of_nil (v := empty) rfl).addAll h

/-- The value of a single atom. -/
theorem says_ofAtom {a : String} (h : Q a) : (ofAtoms [a]).Says Q :=
  says_ofAtoms fun _ hb => List.mem_singleton.mp hb ▸ h

theorem Says.union (hv : v.Says Q) (hw : w.Says Q) : (v.union w).1.Says Q :=
  hv.addAll fun a ha => (hw a ha).2

theorem Says.keep (hv : v.Says Q) (p : String → Bool) : (v.keep p).1.Says Q :=
  fun a ha => hv a (mem_keep ha)

/-- The two cases that copy atoms are plain; a joined atom is known because the property survives
joining, and it is not empty because neither half is. -/
theorem Says.concat (hQ : Text.Robust Q) (hv : v.Says Q) (hw : w.Says Q) :
    (v.concat w).1.Says Q := by
  intro a ha
  rcases mem_concat ha with ha | ⟨ha, -⟩ | ⟨x, hx, y, hy, rfl⟩
  · exact hv a ha
  · exact hw a ha
  · refine ⟨fun hempty => ?_, hQ.append (hv x hx).2 (hw y hy).2⟩
    exact (hv x hx).1 (String.append_eq_empty_iff.mp hempty).1

theorem Says.setInteger (hv : v.Says Q) (n : Int64) : (v.setInteger n).1.Says Q :=
  hv.congr (v.atoms_setInteger n)

/-- The three changes of an assignment keep what is known of both sides; the number they combine is
no atom. -/
theorem Says.change (hv : v.Says Q) (hw : w.Says Q) (c : Script.Change) :
    (v.change c w).1.Says Q := by
  cases c with
  | add => exact (hv.union hw).setInteger _
  | remove => exact (hv.keep _).setInteger _
  | assign =>
    rcases v.assign_cases w with ⟨heq, -⟩ | ⟨heq, -⟩
    · rw [Value.change, heq]
      exact hv
    · rw [Value.change, heq]
      exact hw.congr rfl

end Value

/-- Operators make robust values of robust ones. -/
theorem Operand.says_combine {Q : String → Prop} (hQ : Text.Robust Q) {l r : Operand}
    (hl : l.value.Says Q) (op : Script.Operator) (hr : r.value.Says Q) :
    (l.combine op r).value.Says Q := by
  have hatoms : (combineAtoms op l.value r.value).Says Q := by
    cases op with
    | union => exact hl.union hr
    | difference | intersect => exact hl.keep _
    | concat => exact hl.concat hQ hr
  exact hatoms.setInteger _

end Gamebook
