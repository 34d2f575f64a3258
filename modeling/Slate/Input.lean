import Slate.Fault

/-!
The input of a running program: a buffer with what is left of the current line, and the lines that
were not pulled yet. A line is pulled only when the buffer is empty. Line ends are dropped and
empty lines are passed over, so the program sees the text of the lines and never where they end.
-/

set_option autoImplicit false

namespace Slate

/-- The text of a line that is not valid UTF-8 is `none`. -/
structure Input where
  buffer : List Char
  lines : List (Option (List Char))

namespace Input

/-- Puts one more byte before a stream that is split into lines already. -/
def addByte (byte : UInt8) (lines : List (List UInt8)) : List (List UInt8) :=
  if byte = 10 then
    [byte] :: lines
  else
    match lines with
    | [] => [[byte]]
    | line :: rest => (byte :: line) :: rest

/-- The lines of a stream, each with its line feed. The last one may lack it. -/
def splitLines (bytes : List UInt8) : List (List UInt8) :=
  bytes.foldr addByte []

/-- Drops a line feed and a carriage return before it. -/
def chomp (line : List Char) : List Char :=
  match line.reverse with
  | '\n' :: '\r' :: front => front.reverse
  | '\n' :: front => front.reverse
  | _ => line

def lineText? (line : List UInt8) : Option (List Char) :=
  (String.fromUTF8? ⟨line.toArray⟩).map fun text => chomp text.toList

def ofBytes (bytes : ByteArray) : Input where
  buffer := []
  lines := (splitLines bytes.data.toList).map lineText?

def pull : List (Option (List Char)) → EStateM.Result Fault Input Bool
  | [] => .ok false ⟨[], []⟩
  | none :: rest => .error (.device .notText) ⟨[], rest⟩
  | some [] :: rest => pull rest
  | some (first :: line) :: rest => .ok true ⟨first :: line, rest⟩

/-- Makes sure that the buffer holds something; answers false at the end of the input. -/
def fill : EStateM Fault Input Bool := fun input =>
  if input.buffer.isEmpty then pull input.lines else .ok true input

/-- The longest text at the head of the buffer that is a minus sign or a digit followed by
digits. -/
def literal : List Char → List Char
  | [] => []
  | first :: rest =>
      if first = '-' ∨ first.isDigit then first :: rest.takeWhile Char.isDigit else []

/-- What is left behind a literal of the given length and one blank after it. -/
def afterLiteral (length : Nat) (buffer : List Char) : List Char :=
  match buffer.drop length with
  | ' ' :: rest => rest
  | rest => rest

/-- Takes a decimal integer and at most one blank behind it. At the end of the input there are only
zeros. If the buffer does not start with an integer of sixty-four bits, it stays as it is. -/
def readInteger : EStateM Fault Input Word := do
  if ← fill then
    let input ← get
    let literal := literal input.buffer
    match Numeral.toWord? literal with
    | some value =>
        set { input with buffer := afterLiteral literal.length input.buffer }
        return value
    | none => throw (.malformedInput (String.ofList input.buffer))
  else
    return 0

/-- Takes one character and answers with its code point, or with zero at the end of the input. -/
def readCharacter : EStateM Fault Input Word := do
  if ← fill then
    let input ← get
    match input.buffer with
    | [] => return 0
    | first :: rest =>
        set { input with buffer := rest }
        return Word.ofChar first
  else
    return 0

end Input

end Slate
