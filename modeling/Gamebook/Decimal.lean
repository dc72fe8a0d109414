/-!
# Decimal numerals

Numbers are written in decimal, without leading zeros and with a minus in front of the negative
ones. Reading is more lenient: leading zeros and a plus sign are accepted, white space and digit
separators are not.

The integer component of a value is a 64-bit word whose arithmetic stops at the ends of the range;
`clamp` is the nearest word to an exact integer.
-/

namespace Gamebook.Decimal

/-! ### Writing -/

/-- The numeral of a natural number. -/
def ofNat (n : Nat) : List Char :=
  Nat.toDigits 10 n

/-- The numeral of an integer. -/
def ofInt : Int → List Char
  | .ofNat n => ofNat n
  | .negSucc n => '-' :: ofNat (n + 1)

/-- The numeral of a natural number, as a text. -/
def text (n : Nat) : String :=
  String.ofList (ofNat n)

/-- The numeral of a word. -/
def ofWord (n : Int64) : List Char :=
  ofInt n.toInt

/-! ### Reading -/

/-- The number that a non-empty run of digits stands for. -/
def toNat? (cs : List Char) : Option Nat :=
  if !cs.isEmpty && cs.all Char.isDigit then some (Nat.ofDigitChars 10 cs 0) else none

/-- A run of digits with an optional sign. -/
def toInt? : List Char → Option Int
  | '-' :: cs => (toNat? cs).map fun n => -(n : Int)
  | '+' :: cs => (toNat? cs).map fun n => (n : Int)
  | cs => (toNat? cs).map fun n => (n : Int)

/-- The least word, as an integer. -/
def minWord : Int := -9223372036854775808

/-- The greatest word, as an integer. -/
def maxWord : Int := 9223372036854775807

/-- The greatest index. -/
def maxIndex : Nat := 18446744073709551615

/-- The word equal to an integer, if there is one. -/
def word? (n : Int) : Option Int64 :=
  if minWord ≤ n && n ≤ maxWord then some (Int64.ofInt n) else none

/-- A numeral of the signed 64-bit range. -/
def toWord? (cs : List Char) : Option Int64 :=
  (toInt? cs).bind word?

/-- A numeral of the unsigned 64-bit range; counts and positions are written so. -/
def toIndex? (cs : List Char) : Option Nat :=
  let digits := match cs with
    | '+' :: rest => rest
    | cs => cs
  (toNat? digits).bind fun n => if n ≤ maxIndex then some n else none

/-! ### Arithmetic that stops at the ends of the range -/

/-- The word nearest to an integer. -/
def clamp (n : Int) : Int64 :=
  if n < minWord then Int64.minValue
  else if maxWord < n then Int64.maxValue
  else Int64.ofInt n

/-! ### Small laws -/

theorem toInt_clamp (n : Int) :
    (clamp n).toInt = if n < minWord then minWord else if maxWord < n then maxWord else n := by
  unfold clamp
  split
  · rfl
  · split
    · rfl
    · next hmin hmax =>
      unfold minWord maxWord at *
      exact Int64.toInt_ofInt_of_le (by omega) (by omega)

theorem toNat?_ofNat (n : Nat) : toNat? (ofNat n) = some n := by
  have hne : (Nat.toDigits 10 n).isEmpty = false := by
    rw [List.isEmpty_eq_false_iff]
    exact Nat.toDigits_ne_nil
  have hall : (Nat.toDigits 10 n).all Char.isDigit = true :=
    List.all_eq_true.2 fun c hc => Nat.isDigit_of_mem_toDigits (by decide) (by decide) hc
  simp [toNat?, ofNat, hne, hall, Nat.ofDigitChars_toDigits]

end Gamebook.Decimal
