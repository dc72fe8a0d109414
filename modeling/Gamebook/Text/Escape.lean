/-!
# Escapes

A backslash takes the special meaning from the character behind it, except that `\n` stands for a
line feed. A backslash at the very end stands for itself.
-/

namespace Gamebook.Text

/-- The character that an escaped character stands for. -/
def escaped (c : Char) : Char :=
  if c = 'n' then '\n' else c

/-- Resolve the escapes of a text. -/
def unescape : List Char → List Char
  | '\\' :: c :: rest => escaped c :: unescape rest
  | c :: rest => c :: unescape rest
  | [] => []

/-- Any other character stands for itself. -/
theorem unescape_char {c : Char} (hc : c ≠ '\\') (rest : List Char) :
    unescape (c :: rest) = c :: unescape rest := by
  rw [unescape]
  rintro _ _ rfl
  exact absurd rfl hc

end Gamebook.Text
