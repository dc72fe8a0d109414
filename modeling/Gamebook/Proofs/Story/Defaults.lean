import Gamebook.Proofs.Page.Declared
import Gamebook.Proofs.Value.Literal
import Gamebook.Story.Source

/-!
# Values that stories give

Whatever source a story is loaded from, the values that it gives to its nouns are read from
literals. So they are proper, and nothing about them is marked as changed (`Story.sound_load`).
-/

namespace Gamebook

namespace Story

/-- A page that a definition makes of its header and of its body, which is cleaned first. -/
def Defines (p : Page) : Prop :=
  ∃ (header text : List Char) (h : Header) (origin : Span), Header.ofText header = .ok h ∧
    p = (Page.ofBody { name := h.noun, defaults := (defaultValue h origin).1 }
      (String.ofList (Text.clean text)) origin).1

theorem defines_define {s : Story} (hs : ∀ p ∈ s.pages, Defines p) (definition : List Char)
    (origin : Span) : ∀ p ∈ (s.define definition origin).story.pages, Defines p := by
  rw [Story.define]
  split
  · exact hs
  next header body _ =>
    split
    · exact hs
    next h hread =>
      split
      · -- a pattern adds no page
        rw [Story.definePattern, addPattern]
        split
        next heq =>
          split at heq
          · cases heq
          · cases heq
            exact hs
        next => exact hs
      · split
        · exact hs
        · intro p hp
          rcases List.mem_append.mp hp with hp | hp
          · exact hs p hp
          · exact ⟨header, _, h, origin, hread, List.mem_singleton.mp hp⟩

/-- Every page of a loaded story is made by a definition. -/
theorem defines_load (source : String) : ∀ p ∈ (Story.load source).story.pages, Defines p := by
  have hadd : ∀ (cs : List Char) (extents : List (Nat × Nat)) {l : Loaded},
      (∀ p ∈ l.story.pages, Defines p) →
        ∀ p ∈ (extents.foldl (fun l extent => l.add cs extent) l).story.pages, Defines p := by
    intro cs extents
    induction extents with
    | nil => exact fun hl => hl
    | cons extent extents ih => exact fun hl => ih (defines_define hl _ _)
  refine hadd _ _ fun p hp => ?_
  cases hp

/-- The value that a header gives is read from a literal, or there is none. -/
theorem defaultValue_cases (h : Header) (origin : Span) :
    (defaultValue h origin).1 = .empty ∨
      ∃ literal, (defaultValue h origin).1 = Value.ofLiteral literal := by
  rw [defaultValue]
  cases h.init with
  | none => exact .inl rfl
  | some init =>
    refine .inr ⟨String.ofList (Text.trim init), ?_⟩
    dsimp only
    split
    next v hread => exact (Value.ofLiteral?_eq_ok_iff.mp hread).2.symm
    next => rfl

/-- The values that a story gives are proper, and without marks. -/
def Sound (s : Story) : Prop :=
  ∀ p ∈ s.pages, p.defaults.Proper ∧ p.defaults.dirty = false

/-- A loaded story is sound. -/
theorem sound_load (source : String) : (Story.load source).story.Sound := by
  intro p hp
  obtain ⟨header, text, h, origin, -, rfl⟩ := defines_load source p hp
  rw [Page.defaults_ofBody]
  rcases defaultValue_cases h origin with heq | ⟨literal, heq⟩
  · rw [heq]
    exact ⟨Value.proper_of_nil rfl, rfl⟩
  · rw [heq]
    exact ⟨Value.proper_ofLiteral literal, rfl⟩

theorem Sound.page? {s : Story} (hs : s.Sound) {noun : String} {p : Page}
    (hp : s.page? noun = some p) : p.defaults.Proper ∧ p.defaults.dirty = false :=
  hs p (List.mem_of_find?_eq_some hp)

end Story

end Gamebook
