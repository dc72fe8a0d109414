import Gamebook.Play.Verb
import Gamebook.Proofs.Page.Declared
import Gamebook.Proofs.Play.Guard
import Gamebook.Story.Source

/-!
# Which verbs are on offer

The conditions above a verb are meant to hold all together: the verb is on offer if every condition
in scope at its declaration holds. Of the scripts that are made from them this is true with one
reservation. The conditions are joined as texts, and a condition with an `|` can settle the whole
script. Here is exactly when a verb is on offer, and exactly when this is the same as all of its
conditions holding: no condition may be cut short, with all in front of it holding, in front of one
that does not hold.

At the end there is a door that can be opened without its key.
-/

namespace Gamebook

open Script

/-! ### Guards of declared verbs -/

section Offer

variable {σ : Type} (g : Setting σ) (verb : String → String → Run σ Bool)

/-- Whether the verb at a root of a page is on offer on a stage. -/
def Offered (page : Page) (s : Stage σ) (root : Nat) : Prop :=
  ((verbAvailable g verb page root).run s).1 = true

instance (page : Page) (s : Stage σ) (root : Nat) : Decidable (Offered g verb page s root) :=
  inferInstanceAs (Decidable (_ = true))

/-- A verb is on offer if the script made of its conditions holds. -/
theorem offered_iff_holds {page : Page} {root : Nat} {conditions : List String} (s : Stage σ)
    (h : page.Guards root conditions) :
    Offered g verb page s root ↔ Holds g verb page.name s (foldChains conditions) := by
  obtain ⟨⟨b, hb, hguard⟩, -⟩ := h
  rw [Offered, verbAvailable, hb, Holds, ← hguard]
  rfl

end Offer

/-- A verb that a body declares is on offer if all conditions in scope at its declaration hold, or
if they do up to one that is cut short. So its guard is a conjunction just as long as none of the
conditions is cut short, with all in front of it holding, in front of one that does not hold. -/
theorem Page.offered_iff {page : Page} {body : String} {origin : Span} {v : Verb}
    (hv : v ∈ (page.ofBody body origin).1.verbs) (hnew : v ∉ page.verbs) :
    ∃ conditions, page.Declares body origin v.names v.root conditions ∧
      ∀ {σ : Type} (g : Setting σ) (verb : String → String → Run σ Bool) (s : Stage σ),
        (∀ t ∈ conditions, CallFree t) →
        (Offered g verb (page.ofBody body origin).1 s v.root ↔
          (∀ t ∈ conditions, Holds g verb page.name s t) ∨
          ∃ before t after, conditions = before ++ t :: after ∧
            (∀ b ∈ before, Holds g verb page.name s b) ∧ Holds g verb page.name s t ∧
            CutShort g verb page.name s t) ∧
        ((Offered g verb (page.ofBody body origin).1 s v.root ↔
            ∀ t ∈ conditions, Holds g verb page.name s t) ↔
          ∀ before t after, conditions = before ++ t :: after →
            (∀ b ∈ before, Holds g verb page.name s b) → Holds g verb page.name s t →
            CutShort g verb page.name s t → ∀ a ∈ after, Holds g verb page.name s a) := by
  obtain ⟨conditions, hdeclares, hguards⟩ := Page.guards_ofBody hv hnew
  refine ⟨conditions, hdeclares, fun g verb s hfree => ?_⟩
  have hoffered := offered_iff_holds g verb s hguards
  rw [Page.name_ofBody] at hoffered
  rw [hoffered]
  exact ⟨holds_foldChains g verb page.name s hguards.2 hfree,
    holds_foldChains_iff_forall g verb page.name s hguards.2 hfree⟩

/-! ### A door without a key -/

/-- A lamp that is lit, a key that nobody holds, and a door behind two conditions. -/
def doorSource : String :=
  "[lamp=lit][key][door]?lamp=lit|lamp=on\x7b?key=held[:open]\"It opens.\"\x7d"

/-- What is said of the door. -/
def doorBody : String :=
  "?lamp=lit|lamp=on\x7b?key=held[:open]\"It opens.\"\x7d"

/-- The door. -/
def door : Page :=
  (Page.ofBody { name := "door" } doorBody ⟨14, 20⟩).1

/-- The conditions above the one verb of the door. -/
def doorConditions : List String :=
  ["[?lamp=lit]|[?lamp=on]", "[?key=held]"]

/-- The story of the door, in a book that does nothing. -/
def doorSetting : Setting Unit :=
  ⟨(Story.load doorSource).story, .silent, 64⟩

/-- The beginning of the story of the door. -/
def doorStage : Stage Unit :=
  { session := .fresh, host := () }

/-- Refuse to run any verb. -/
def noVerb (_ _ : String) : Run Unit Bool :=
  return false

/-- The verb of the door is declared under both conditions. -/
theorem declares_door :
    Page.Declares { name := "door" } doorBody ⟨14, 20⟩ ["open"] 0 doorConditions :=
  ⟨_, _, "\"It opens.\"\x7d".toList, Draft.Reached.start.after 2, by decide +kernel, by decide,
    by decide +kernel, by decide +kernel⟩

/-- Nothing is called in the conditions above the verb of the door. -/
theorem callFree_door : ∀ t ∈ doorConditions, CallFree t := by
  decide +kernel

/-- The verb of the door is on offer if both of its conditions hold, or if they do up to one that is
cut short. -/
theorem offered_iff_door : (⟨"open", ["open"], 0⟩ : Verb) ∈ door.verbs ∧
    (Offered doorSetting noVerb door doorStage 0 ↔
      (∀ t ∈ doorConditions, Holds doorSetting noVerb "door" doorStage t) ∨
      ∃ before t after, doorConditions = before ++ t :: after ∧
        (∀ b ∈ before, Holds doorSetting noVerb "door" doorStage b) ∧
        Holds doorSetting noVerb "door" doorStage t ∧
        CutShort doorSetting noVerb "door" doorStage t) := by
  have hv : (⟨"open", ["open"], 0⟩ : Verb) ∈ door.verbs := by decide +kernel
  obtain ⟨conditions, hdeclares, hoffered⟩ := Page.offered_iff hv (by decide)
  obtain rfl := (declares_door.unique hdeclares).2
  exact ⟨hv, (hoffered doorSetting noVerb doorStage callFree_door).1⟩

/-- The door of the story can be opened by the light of the lamp, although the second condition
above its verb does not hold. -/
theorem offered_door : (Story.load doorSource).story.page? "door" = some door ∧
    Page.Declares { name := "door" } doorBody ⟨14, 20⟩ ["open"] 0 doorConditions ∧
    (∀ t ∈ doorConditions, CallFree t) ∧
    Offered doorSetting noVerb door doorStage 0 ∧
    ¬ ∀ t ∈ doorConditions, Holds doorSetting noVerb "door" doorStage t :=
  ⟨by decide +kernel, declares_door, callFree_door, by decide +kernel, by decide +kernel⟩

end Gamebook
