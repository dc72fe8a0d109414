/-!
# Terminal controls

A terminal obeys some characters instead of showing them: control characters, and the sequences
that an escape opens. An argument that is complained about is shown without them. Of the control
characters only the blank ones are shown. Such a one interrupts a sequence that it stands in: what
follows is shown, until another control character resumes the sequence.
-/

namespace Gamebook

/-- How a terminal takes the next character. -/
inductive ControlMode where
  /-- To show it. -/
  | text
  /-- As the kind of the sequence that an escape has opened. -/
  | escape
  /-- As part of a short sequence: signs, and a letter or digit that ends it. -/
  | short
  /-- As part of a control sequence: signs and digits, and a letter that ends it. -/
  | sequence
  /-- As the first character of a message to a device. -/
  | device
  /-- As a digit at the head of a message to a device. -/
  | deviceDigits
  /-- As a sign at the head of a message to a device. -/
  | deviceSigns
  /-- As part of a message, up to its terminator. -/
  | message
  /-- As part of a title or the like, up to its terminator or a bell. -/
  | title
  deriving DecidableEq, Repr

namespace ControlMode

/-- The mode behind a graphic character of ASCII. -/
def next (m : ControlMode) (c : Char) : ControlMode :=
  match m with
  | text => text
  | escape =>
    if c.toNat < 0x30 then short
    else if c = '[' then sequence
    else if c = ']' then title
    else if c = 'P' then device
    else if c = 'X' ∨ c = '^' ∨ c = '_' then message
    else text
  | short => if c.toNat < 0x30 then short else text
  | sequence => if c.toNat < 0x40 then sequence else text
  | device =>
    if c.toNat < 0x30 then deviceSigns else if c.toNat < 0x40 then deviceDigits else message
  | deviceDigits =>
    if c.toNat < 0x30 then deviceSigns else if c.toNat < 0x3C then deviceDigits else message
  | deviceSigns => if c.toNat < 0x30 then deviceSigns else message
  | message => message
  | title => title

/-- Whether control characters are obeyed at once, and do not belong to a message. -/
def isObedient : ControlMode → Bool
  | text | escape | short | sequence => true
  | _ => false

/-- Whether a control character is a blank one. -/
def isBlankControl (c : Char) : Bool :=
  c = '\t' || c = '\n' || c = '\x0c' || c = '\r'

/-- Whether one of the bytes of a character is the terminator of a message. -/
def holdsTerminator (c : Char) : Bool :=
  (String.utf8EncodeChar c).contains 0x9C

end ControlMode

/-- Where a terminal stands in a text. -/
structure ControlState where
  mode : ControlMode := .text
  /-- A blank control character has interrupted a sequence. -/
  interrupted : Bool := false
  deriving DecidableEq, Repr

namespace ControlState

/-- Whether the next character is shown if it is a graphic one. -/
def isShowing (s : ControlState) : Bool :=
  s.mode = .text || s.interrupted

/-- Take a control character: whether it is shown, and what is behind it. -/
def takeControl (s : ControlState) (c : Char) : Bool × ControlState :=
  if c = '\x1b' then (false, ⟨.escape, false⟩)
  else if c = '\x18' ∨ c = '\x1a' then (false, {})
  else if ControlMode.isBlankControl c && s.mode.isObedient then (true, ⟨s.mode, s.mode ≠ .text⟩)
  else if s.mode = .title ∧ c = '\x07' then (false, {})
  else (false, ⟨s.mode, false⟩)

/-- Take a graphic character: whether it is shown, and what is behind it. Outside of ASCII there are
no parts of sequences. -/
def takeGraphic (s : ControlState) (c : Char) : Bool × ControlState :=
  if c.toNat < 0x80 then
    (s.isShowing, if s.interrupted then s else ⟨s.mode.next c, false⟩)
  else if s.isShowing || s.mode = .message && ControlMode.holdsTerminator c then (s.isShowing, {})
  else (false, s)

/-- Take a character: whether it is shown, and what is behind it. -/
def take (s : ControlState) (c : Char) : Bool × ControlState :=
  if c.toNat < 0x20 ∨ c = '\x7f' then s.takeControl c else s.takeGraphic c

/-- What is shown of a text. -/
def shown (s : ControlState) : List Char → List Char
  | [] => []
  | c :: rest =>
    let (isShown, s) := s.take c
    if isShown then c :: s.shown rest else s.shown rest

/-- Text is shown, and more text is expected behind it. -/
theorem take_text {c : Char} (graphic : 0x20 ≤ c.toNat) (delete : c ≠ '\x7f') :
    take {} c = (true, {}) := by
  have control : ¬(c.toNat < 0x20 ∨ c = '\x7f') := by simp [delete, Nat.not_lt.2 graphic]
  simp [take, control, takeGraphic, isShowing, ControlMode.next]

/-- A text without control characters is shown as it is. -/
theorem shown_eq_self {cs : List Char} (h : ∀ c ∈ cs, 0x20 ≤ c.toNat ∧ c ≠ '\x7f') :
    shown {} cs = cs := by
  induction cs with
  | nil => rfl
  | cons c cs ih =>
    obtain ⟨graphic, delete⟩ := h c (by simp)
    simp [shown, take_text graphic delete, ih fun d hd => h d (by simp [hd])]

end ControlState

/-- What a terminal shows of a text. -/
def withoutControls (s : String) : String :=
  String.ofList (ControlState.shown {} s.toList)

end Gamebook
