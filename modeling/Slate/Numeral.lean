import Slate.Word

/-!
Decimal numerals. The language writes no leading zeros and no plus sign; it reads any number of
leading zeros.
-/

set_option autoImplicit false

namespace Slate.Numeral

/-- The number that a run of decimal digits stands for. -/
def value (digits : List Char) : Nat :=
  Nat.ofDigitChars 10 digits 0

/-- A minus sign where the integer is negative, then the digits of its size. -/
def ofInt : Int → List Char
  | .ofNat size => Nat.toDigits 10 size
  | .negSucc size => '-' :: Nat.toDigits 10 (size + 1)

/-- Reads a run of digits, possibly after a minus sign, as a word. A sign alone is no numeral, and
a number beyond sixty-four bits has no word. -/
def toWord? : List Char → Option Word
  | '-' :: digits =>
      if digits.isEmpty then none else Word.ofInt? (-(value digits : Int))
  | digits =>
      if digits.isEmpty then none else Word.ofInt? (value digits)

end Numeral

/-- The decimal text of a word. -/
def Word.decimal (word : Word) : String :=
  String.ofList (Numeral.ofInt word.toInt)

/-- The decimal text of a count or a position. -/
def Numeral.ofNat (count : Nat) : String :=
  String.ofList (Nat.toDigits 10 count)

end Slate
