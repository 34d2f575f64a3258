import Slate.Command.Arguments
import Slate.Machine
import Slate.Token.Listing

/-!
What a command answers: an exit code, what it writes and, if it fails, why.
-/

set_option autoImplicit false

namespace Slate

/-- Why a source file cannot be read. -/
inductive Unreadable
  | missing
  | directory
  | notText
  | other (reason : String)

def Unreadable.message : Unreadable → String
  | .missing => "No such file or directory (os error 2)"
  | .directory => "Is a directory (os error 21)"
  | .notText => "stream did not contain valid UTF-8"
  | .other reason => reason

structure Response where
  code : UInt32
  output : ByteArray
  complaint? : Option String

namespace Response

def success (output : String) : Response :=
  ⟨0, output.toUTF8, none⟩

/-- A failure shows its message, and once more what the message says behind the class. -/
def ofFailure (output : ByteArray) (failure : Failure) : Response :=
  ⟨1, output, some ("error: " ++ failure.message ++ ": " ++ failure.detail)⟩

def ofUnreadable (path : String) (cause : Unreadable) : Response :=
  ⟨1, .empty, some ("error: failed to read " ++ path ++ ": " ++ cause.message)⟩

/-- Misuse is told apart by its code alone. -/
def ofAside : Aside → Response
  | .version => success "quill 0.1.0\n"
  | .help => success ""
  | .misuse => ⟨2, .empty, none⟩

def ofExcept (outcome : Except Failure String) : Response :=
  match outcome with
  | .ok output => success output
  | .error failure => ofFailure .empty failure

end Response

namespace Command

/-- The outcome of a run that ended within the laps. -/
def runResponse (laps limit : Nat) (source : String) (input : ByteArray) : Option Response :=
  match Machine.runSource laps source (.start limit (.ofBytes input) .unlimited) with
  | .ok _ machine => some ⟨0, machine.sink.written, none⟩
  | .error (.failure cause) machine => some (.ofFailure machine.sink.written cause)
  | .error .unfinished _ => none

/-- Carries out a command on the contents of its file. There is no answer if the program does not
end within the laps. -/
def respond (laps : Nat) (command : Command) (contents : Except Unreadable ByteArray)
    (input : ByteArray) : Option Response :=
  match contents.bind fun bytes => (String.fromUTF8? bytes).elim (.error .notText) .ok with
  | .error cause => some (.ofUnreadable command.path cause)
  | .ok source =>
      match command.task with
      | .listTokens =>
          some (.ofExcept ((Token.scan source).mapError .scan |>.map fun tokens =>
            Token.indentedListing tokens ++ "\n"))
      | .outline =>
          some (.ofExcept ((Program.ofSource command.limit source).map fun program =>
            program.text ++ "\n"))
      | .run => runResponse laps command.limit source input

end Command

end Slate
