/-!
Words of sixty-four bits, the only values of the language. Sums, differences and products wrap
around. A quotient is rounded towards negative infinity, so that a remainder takes the sign of
its divisor, and zero is the only word that counts as false.
-/

set_option autoImplicit false

namespace Slate

abbrev Word := Int64

namespace Word

def ofBool (holds : Bool) : Word :=
  if holds then 1 else 0

def isTrue (word : Word) : Bool :=
  word != 0

/-- The word of an integer, if the integer is within sixty-four bits. -/
def ofInt? (value : Int) : Option Word :=
  if Int64.minValue.toInt ≤ value ∧ value ≤ Int64.maxValue.toInt then
    some (Int64.ofInt value)
  else
    none

/-- Quotient rounded towards negative infinity. The machine quotient is rounded towards zero,
which is one too many exactly when the division leaves a remainder and the signs differ. -/
def floorDiv (dividend divisor : Word) : Word :=
  if dividend % divisor != 0 && decide (dividend < 0) != decide (divisor < 0) then
    dividend / divisor - 1
  else
    dividend / divisor

/-- Remainder that belongs to `floorDiv`. The machine remainder has the sign of the dividend, and
one divisor more moves it to the sign of the divisor. -/
def floorMod (dividend divisor : Word) : Word :=
  let remainder := dividend % divisor
  if remainder != 0 && decide (remainder < 0) != decide (divisor < 0) then
    remainder + divisor
  else
    remainder

/-- The character whose code point the word is. -/
def toChar? (word : Word) : Option Char :=
  if 0 ≤ word ∧ word.toInt.toNat.isValidChar then
    some (Char.ofNat word.toInt.toNat)
  else
    none

/-- Code points are far below the largest word, so nothing wraps. -/
def ofChar (character : Char) : Word :=
  Int64.ofNat character.toNat

end Word

end Slate
