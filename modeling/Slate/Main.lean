import Slate.Command.Response

/-!
The program itself: runs the file that its arguments name on standard input and output.
-/

set_option autoImplicit false

namespace Slate

def readSource (path : String) : IO (Except Unreadable ByteArray) := do
  try
    return .ok (← IO.FS.readBinFile path)
  catch
    | .noFileOrDirectory .. => return .error .missing
    | .inappropriateType .. => return .error .directory
    | cause => return .error (.other (toString cause))

partial def readAll (stream : IO.FS.Stream) (sofar : ByteArray) : IO ByteArray := do
  let chunk ← stream.read 65536
  if chunk.isEmpty then return sofar else readAll stream (sofar ++ chunk)

def answer (arguments : List String) : IO (Option Response) := do
  match Command.ofArguments arguments with
  | .error aside => return some (.ofAside aside)
  | .ok command =>
      let contents ← readSource command.path
      let input ← if command.task = .run then readAll (← IO.getStdin) .empty else pure .empty
      return command.respond Machine.lifetimeLaps contents input

end Slate

def main (arguments : List String) : IO UInt32 := do
  match ← Slate.answer arguments with
  | none => return 1
  | some response =>
      let output ← IO.getStdout
      output.write response.output
      output.flush
      if let some complaint := response.complaint? then IO.eprintln complaint
      return response.code
