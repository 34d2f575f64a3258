import Slate.Text.Unprintable

/-!
Quoted text, the form in which messages show text from outside: between double quotes, with quotes,
backslashes and everything that would not show up by itself escaped. A single quote stands for
itself.
-/

set_option autoImplicit false

namespace Slate.Text

/-- An escape by code point, in lower-case hexadecimal without leading zeros. -/
def numbered (character : Char) : List Char :=
  ['\\', 'u', '\x7b'] ++ Nat.toDigits 16 character.toNat ++ ['\x7d']

def escape (character : Char) : List Char :=
  match character with
  | '"' => ['\\', '"']
  | '\\' => ['\\', '\\']
  | '\t' => ['\\', 't']
  | '\n' => ['\\', 'n']
  | '\r' => ['\\', 'r']
  | '\x00' => ['\\', '0']
  | other => if isUnprintable other then numbered other else [other]

def quoted (text : String) : String :=
  String.ofList ('"' :: text.toList.flatMap escape ++ ['"'])

end Slate.Text
