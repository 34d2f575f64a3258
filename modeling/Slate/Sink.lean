import Slate.Fault

/-!
Where output goes. A sink may have room for a limited number of bytes, and it may refuse to be
flushed.
-/

set_option autoImplicit false

namespace Slate

structure Sink where
  written : ByteArray
  capacity? : Option Nat
  refusesFlush : Bool

namespace Sink

/-- A sink without bounds. -/
def unlimited : Sink :=
  ⟨.empty, none, false⟩

/-- Appends the bytes. A sink without room for all of them takes those that fit and fails. -/
def write (bytes : ByteArray) : EStateM Trouble Sink Unit := fun sink =>
  let room := match sink.capacity? with
    | some capacity => capacity - sink.written.size
    | none => bytes.size
  if bytes.size ≤ room then
    .ok () { sink with written := sink.written ++ bytes }
  else
    .error .sinkFull { sink with written := sink.written ++ bytes.extract 0 room }

def flush : EStateM Trouble Sink Unit := fun sink =>
  if sink.refusesFlush then .error .flushRefused sink else .ok () sink

end Sink

end Slate
