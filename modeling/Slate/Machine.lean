import Slate.Grammar.Program
import Slate.Machine.Eval
import Slate.Sink

/-!
Running programs. A machine has a store, an input and a sink, which all programs that it runs
share, and a limit on how deep statements may nest while they are executed.

Loops need not end, so execution takes a number of laps: the most laps that any one pass through a
loop may make. A run that needs more stops as unfinished, which is no failure of the program, and
a run that ends is the same with any larger number of laps.
-/

set_option autoImplicit false

namespace Slate

structure Machine where
  store : Store
  input : Input
  sink : Sink
  limit : Nat
  depth : Nat

/-- Why a machine stops before the end. -/
inductive Stop
  | failure (cause : Failure)
  | unfinished

namespace Machine

/-- Something a machine does. What it did before it stopped stays done. -/
abbrev Action := EStateM Stop Machine

/-- The variable whose assignments are written as decimal numbers. -/
def writeName : String :=
  "write"

/-- The variable whose assignments are written as characters. -/
def putName : String :=
  "put"

/-- More laps than any loop makes in a lifetime. -/
def lifetimeLaps : Nat :=
  1000000000000000000

/-- A fresh machine. -/
def start (limit : Nat) (input : Input) (sink : Sink) : Machine :=
  ⟨.empty, input, sink, limit, 0⟩

/-- Replaces the limit for all that follows. -/
def setLimit (limit : Nat) : Action Unit :=
  modify fun machine => { machine with limit }

def fail {α : Type} (fault : Fault) : Action α :=
  throw (.failure (.runtime fault))

/-- Runs a step that reads the store and takes input. -/
def reading {α : Type} (step : Store → EStateM Fault Input α) : Action α := fun machine =>
  match step machine.store machine.input with
  | .ok value input => .ok value { machine with input }
  | .error fault input => .error (.failure (.runtime fault)) { machine with input }

/-- Runs a step on the sink. -/
def sinking (step : EStateM Trouble Sink Unit) : Action Unit := fun machine =>
  match step machine.sink with
  | .ok _ sink => .ok () { machine with sink }
  | .error trouble sink =>
      .error (.failure (.runtime (.device trouble))) { machine with sink }

def evaluate (expr : Expr) : Action Word :=
  reading (expr.eval ·)

def slotOf (ref : Ref) : Action String :=
  reading (ref.slot ·)

def holds (condition : Expr) : Action Bool := do
  return (← evaluate condition).isTrue

/-- Runs an action one level further in and comes back, whether or not the action succeeds. -/
def nested {α : Type} (action : Action α) : Action α := fun machine =>
  if machine.limit ≤ machine.depth then
    .error (.failure (.runtime (.tooDeep machine.limit))) machine
  else
    match action { machine with depth := machine.depth + 1 } with
    | .ok value after => .ok value { after with depth := after.depth - 1 }
    | .error stop after => .error stop { after with depth := after.depth - 1 }

/-- Gives a value to a slot, or writes it. -/
def deliver (slot : String) (value : Word) : Action Unit :=
  if slot = writeName then
    sinking (Sink.write value.decimal.toUTF8)
  else if slot = putName then
    match value.toChar? with
    | some character => sinking (Sink.write (String.singleton character).toUTF8)
    | none => fail (.invalidCharacter value)
  else
    modify fun machine => { machine with store := machine.store.set slot value }

/-- The target is settled before the value, which shows when both take input. -/
def assign (target : Ref) (value : Expr) : Action Unit := do
  let slot ← slotOf target
  let value ← evaluate value
  deliver slot value

def repeatWhile (condition : Action Bool) (body : Action Unit) : (laps : Nat) → Action Unit
  | 0 => throw .unfinished
  | laps + 1 => do
      if ← condition then
        body
        repeatWhile condition body laps
      else
        return ()

mutual

def execute (laps : Nat) : Stmt → Action Unit
  | .block body => nested (executeAll laps body)
  | .assign target value => nested (assign target value)
  | .branch condition accepted rejected => nested do
      if ← holds condition then execute laps accepted else execute laps rejected
  | .loop condition body => nested (repeatWhile (holds condition) (execute laps body) laps)

def executeAll (laps : Nat) : List Stmt → Action Unit
  | [] => return ()
  | statement :: rest => do
      execute laps statement
      executeAll laps rest

end

/-- Flushes the sink after an action, whether or not the action fails. A refused flush takes the
place of the result. -/
def flushing (action : Action Unit) : Action Unit := fun machine =>
  match action machine with
  | .ok _ after => sinking Sink.flush after
  | .error .unfinished after => .error .unfinished after
  | .error (.failure cause) after =>
      match sinking Sink.flush after with
      | .ok _ flushed => .error (.failure cause) flushed
      | refused => refused

/-- Runs the main program, if there is one, and flushes what it wrote. -/
def runProgram (laps : Nat) (program : Program) : Action Unit :=
  match program.main? with
  | none => return ()
  | some main => flushing (execute laps main)

/-- Parses a source text under the machine's own limit and runs it. A text that is no program
changes nothing. -/
def runSource (laps : Nat) (source : String) : Action Unit := do
  match Program.ofSource (← get).limit source with
  | .ok program => runProgram laps program
  | .error cause => throw (.failure cause)

end Machine

end Slate
