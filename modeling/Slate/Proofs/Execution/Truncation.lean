import Slate.Proofs.Execution.Joining
import Slate.Proofs.Execution.Session

/-!
A sink of limited capacity only truncates the output. Beside a run on a sink without bounds, the run
on a sink with room for some bytes goes on in step as long as all that is written fits. The first
piece of output that does not fit fills the sink and ends the run with the failure of the sink. By
then exactly as many bytes are written as the sink can hold, and since output is only ever appended,
they are the first ones that the other run writes. They may end in the middle of a number or of a
character.
-/

set_option autoImplicit false

namespace Slate.Machine

variable {α β : Type}

/-- The same machine with a sink of another capacity. -/
def holding (machine : Machine) (capacity? : Option Nat) : Machine :=
  { machine with sink := { machine.sink with capacity? } }

/-- The same machine with more output. -/
def appending (machine : Machine) (bytes : ByteArray) : Machine :=
  { machine with sink := { machine.sink with written := machine.sink.written ++ bytes } }

section

variable {machine : Machine} {bytes : ByteArray} {capacity : Nat}

theorem write_unbounded :
    sinking (Sink.write bytes) (machine.holding none) =
      .ok () ((machine.appending bytes).holding none) := by
  simp [sinking, Sink.write, holding, appending]

theorem write_within (room : bytes.size ≤ capacity - machine.sink.written.size) :
    sinking (Sink.write bytes) (machine.holding (some capacity)) =
      .ok () ((machine.appending bytes).holding (some capacity)) := by
  simp [sinking, Sink.write, holding, appending, room]

theorem write_beyond (room : ¬ bytes.size ≤ capacity - machine.sink.written.size) :
    sinking (Sink.write bytes) (machine.holding (some capacity)) =
      .error (.failure (.runtime (.device .sinkFull)))
        ((machine.appending (bytes.extract 0 (capacity - machine.sink.written.size))).holding
          (some capacity)) := by
  simp [sinking, Sink.write, holding, appending, room]

end

/-- The first bytes stay the first ones when more are appended. -/
theorem extract_of_appended
    {written longer : ByteArray} {capacity : Nat} (exceeds : capacity < written.size)
    (appended : ∃ further, longer = written ++ further) :
    capacity < longer.size ∧ longer.extract 0 capacity = written.extract 0 capacity := by
  obtain ⟨further, rfl⟩ := appended
  have nothing : capacity - written.size = 0 - written.size := by omega
  constructor
  · rw [ByteArray.size_append]
    omega
  · rw [ByteArray.extract_append, nothing, ByteArray.extract_same, ByteArray.append_empty]

/-- How a run on a sink without bounds relates to the run on a sink with the capacity. They end
alike, with an output that fits, or the second run filled the sink. -/
inductive Truncated (capacity : Nat) :
    EStateM.Result Stop Machine α → EStateM.Result Stop Machine α → Prop
  | value (value : α) (after : Machine) (fits : after.sink.written.size ≤ capacity) :
      Truncated capacity (.ok value (after.holding none))
        (.ok value (after.holding (some capacity)))
  | stop (cause : Stop) (after : Machine) (fits : after.sink.written.size ≤ capacity) :
      Truncated capacity (.error cause (after.holding none))
        (.error cause (after.holding (some capacity)))
  | full {outcome : EStateM.Result Stop Machine α} {stopped : Machine}
      (exceeds : capacity < (final outcome).sink.written.size)
      (filled : stopped.sink.written = (final outcome).sink.written.extract 0 capacity) :
      Truncated capacity outcome (.error (.failure (.runtime (.device .sinkFull))) stopped)

/-- The second run is the first one, truncated, from every machine whose output so far fits. The
first action is steady, so that what it writes behind the capacity changes nothing before it. -/
structure Truncates (capacity : Nat) (free bounded : Action α) : Prop where
  truncated : ∀ machine : Machine, machine.sink.written.size ≤ capacity →
    Truncated capacity (free (machine.holding none)) (bounded (machine.holding (some capacity)))
  steady : Steady free

namespace Truncates

variable {capacity : Nat}

theorem pure (value : α) : Truncates capacity (Pure.pure value) (Pure.pure value) :=
  ⟨.value value, Steady.pure value⟩

theorem stop (cause : Stop) :
    Truncates capacity (throw cause : Action α) (throw cause : Action α) :=
  ⟨.stop cause, Steady.stop cause⟩

theorem bind
    {free bounded : Action α} {next boundedNext : α → Action β}
    (truncates : Truncates capacity free bounded)
    (nextTruncates : ∀ value, Truncates capacity (next value) (boundedNext value)) :
    Truncates capacity (free >>= next) (bounded >>= boundedNext) := by
  refine ⟨fun machine fits => ?_, truncates.steady.bind fun value => (nextTruncates value).steady⟩
  have step := truncates.truncated machine fits
  generalize run : free (machine.holding none) = outcome at step
  generalize boundedRun : bounded (machine.holding (some capacity)) = boundedOutcome at step
  cases step with
  | value value after fits =>
      rw [bind_of_ok run, bind_of_ok boundedRun]
      exact (nextTruncates value).truncated after fits
  | stop cause after fits =>
      rw [bind_of_error run, bind_of_error boundedRun]
      exact .stop cause after fits
  | full exceeds filled =>
      -- Only the run on the sink without bounds may go on, and it leaves the first bytes alone.
      rw [bind_of_error boundedRun]
      cases outcome with
      | ok value after =>
          have further := ((nextTruncates value).steady after).appended
          obtain ⟨exceedsToo, sameStart⟩ := extract_of_appended exceeds further
          rw [bind_of_ok run]
          exact .full exceedsToo (filled.trans sameStart.symm)
      | error cause after =>
          rw [bind_of_error run]
          exact .full exceeds filled

theorem reading (step : Store → EStateM Fault Input α) :
    Truncates capacity (Machine.reading step) (Machine.reading step) := by
  refine ⟨fun machine fits => ?_, Steady.reading step⟩
  unfold Machine.reading
  cases run : step machine.store machine.input with
  | ok value input =>
      simp only [holding, run]
      exact .value value { machine with input } fits
  | error fault input =>
      simp only [holding, run]
      exact .stop _ { machine with input } fits

/-- The piece of output that exceeds the capacity fills the sink. -/
theorem writing (bytes : ByteArray) :
    Truncates capacity (sinking (Sink.write bytes)) (sinking (Sink.write bytes)) := by
  refine ⟨fun machine fits => ?_, Steady.writing bytes⟩
  rw [write_unbounded]
  by_cases room : bytes.size ≤ capacity - machine.sink.written.size
  · rw [write_within room]
    refine .value () (machine.appending bytes) ?_
    simp only [appending, ByteArray.size_append]
    omega
  · have whole : machine.sink.written.extract 0 capacity = machine.sink.written := by
      rw [← Nat.max_eq_left fits]
      exact ByteArray.extract_zero_max_size
    rw [write_beyond room]
    refine .full ?_ ?_
    · simp only [final, holding, appending, ByteArray.size_append]
      omega
    · simp only [final, holding, appending, ByteArray.extract_append, whole, Nat.zero_sub]

theorem deliver (slot : String) (value : Word) :
    Truncates capacity (Machine.deliver slot value) (Machine.deliver slot value) := by
  rcases deliver_cases slot value with ⟨bytes, written⟩ | refused | stored
  · rw [written]
    exact writing bytes
  · rw [refused]
    exact stop _
  · have steady := Steady.deliver slot value
    rw [stored] at steady ⊢
    refine ⟨fun machine fits => ?_, steady⟩
    exact .value () { machine with store := machine.store.set slot value } fits

theorem nested {free bounded : Action α} (truncates : Truncates capacity free bounded) :
    Truncates capacity (Machine.nested free) (Machine.nested bounded) := by
  refine ⟨fun machine fits => ?_, truncates.steady.nested⟩
  by_cases met : machine.limit ≤ machine.depth
  · have bothMet (capacity? : Option Nat) :
        (machine.holding capacity?).limit ≤ (machine.holding capacity?).depth := met
    rw [nested_of_met (bothMet none), nested_of_met (bothMet (some capacity))]
    exact .stop _ machine fits
  · have unmet (capacity? : Option Nat) :
        ¬ (machine.holding capacity?).limit ≤ (machine.holding capacity?).depth := met
    have step := truncates.truncated { machine with depth := machine.depth + 1 } fits
    generalize run : free _ = outcome at step
    generalize boundedRun : bounded _ = boundedOutcome at step
    cases step with
    | value value after fits =>
        rw [nested_of_ok (unmet none) run, nested_of_ok (unmet (some capacity)) boundedRun]
        exact .value value { after with depth := after.depth - 1 } fits
    | stop cause after fits =>
        rw [nested_of_error (unmet none) run, nested_of_error (unmet (some capacity)) boundedRun]
        exact .stop cause { after with depth := after.depth - 1 } fits
    | full exceeds filled =>
        rw [nested_of_error (unmet (some capacity)) boundedRun]
        cases outcome with
        | ok value after =>
            rw [nested_of_ok (unmet none) run]
            exact .full exceeds filled
        | error cause after =>
            rw [nested_of_error (unmet none) run]
            exact .full exceeds filled

theorem congruence : Congruence (fun _ => Truncates capacity) where
  pure := pure
  bind := bind
  evaluate _ := reading _
  slotOf _ := reading _
  deliver := deliver
  nested := nested
  unfinished := stop _

end Truncates

theorem execute_truncates (capacity laps : Nat) (statement : Stmt) :
    Truncates capacity (execute laps statement) (execute laps statement) :=
  Truncates.congruence.execute (Nat.le_refl laps) (.inl rfl) statement

/-- The program, run on the machine, ends in this way, after however many laps. -/
def ProgramEnds (program : Program) (machine : Machine)
    (outcome : EStateM.Result Failure Machine Unit) : Prop :=
  ∃ laps, runProgram laps program machine = ended outcome

/-- The same end on a sink of another capacity. -/
def endHolding (capacity? : Option Nat) :
    EStateM.Result Failure Machine Unit → EStateM.Result Failure Machine Unit
  | .ok value after => .ok value (after.holding capacity?)
  | .error cause after => .error cause (after.holding capacity?)

theorem runProgram_truncated
    {machine : Machine} {capacity : Nat} (flushes : machine.sink.refusesFlush = false)
    (fits : machine.sink.written.size ≤ capacity) (laps : Nat) (program : Program) :
    Truncated capacity (runProgram laps program (machine.holding none))
      (runProgram laps program (machine.holding (some capacity))) := by
  unfold runProgram
  cases program.main? with
  | none => exact .value () machine fits
  | some main =>
      have flushed (capacity? : Option Nat) :
          flushing (execute laps main) (machine.holding capacity?) =
            execute laps main (machine.holding capacity?) :=
        flushing_eq (execute_steady laps main) flushes
      simp only [flushed]
      exact (execute_truncates capacity laps main).truncated machine fits

theorem Truncated.ends
    {capacity : Nat} {outcome : EStateM.Result Failure Machine Unit}
    {bounded : EStateM.Result Stop Machine Unit}
    (truncated : Truncated capacity (ended outcome) bounded) :
    ((final outcome).sink.written.size ≤ capacity →
      bounded = ended (endHolding (some capacity) outcome)) ∧
    (capacity < (final outcome).sink.written.size →
      ∃ stopped, bounded = ended (.error (.runtime (.device .sinkFull)) stopped) ∧
        stopped.sink.written = (final outcome).sink.written.extract 0 capacity) := by
  rw [← final_ended outcome]
  generalize run : ended outcome = result at truncated
  cases truncated with
  | value value after fits =>
      refine ⟨fun _ => ?_, fun exceeds => absurd exceeds (Nat.not_lt.2 fits)⟩
      cases outcome <;> cases run
      rfl
  | stop cause after fits =>
      refine ⟨fun _ => ?_, fun exceeds => absurd exceeds (Nat.not_lt.2 fits)⟩
      cases outcome <;> cases run
      rfl
  | full exceeds filled =>
      exact ⟨fun fits => absurd exceeds (Nat.not_lt.2 fits), fun _ => ⟨_, rfl, filled⟩⟩

/-- A sink of limited capacity only truncates. If the output of a run on a sink without bounds fits
into the sink, then the run on this sink ends in the same way, in the same state and with the same
output. Otherwise the run ends with the failure of the sink, and its output are the first bytes of
the other one, as many as the sink can hold. However a run or an execution ends, and whatever its
sink, it has only appended to the output. -/
theorem runProgram_bounded_truncates :
    (∀ (program : Program) (machine : Machine) (capacity : Nat) outcome,
      machine.sink.refusesFlush = false → machine.sink.written.size ≤ capacity →
        ProgramEnds program (machine.holding none) outcome →
          ((final outcome).sink.written.size ≤ capacity →
            ProgramEnds program (machine.holding (some capacity))
              (endHolding (some capacity) outcome)) ∧
          (capacity < (final outcome).sink.written.size →
            ∃ stopped, ProgramEnds program (machine.holding (some capacity))
                (.error (.runtime (.device .sinkFull)) stopped) ∧
              stopped.sink.written = (final outcome).sink.written.extract 0 capacity)) ∧
    (∀ program machine outcome, ProgramEnds program machine outcome →
      ∃ further, (final outcome).sink.written = machine.sink.written ++ further) ∧
    ∀ statement machine outcome, Ends statement machine outcome →
      ∃ further, (final outcome).sink.written = machine.sink.written ++ further := by
  refine ⟨?_, ?_, ?_⟩
  · rintro program machine capacity outcome flushes fits ⟨laps, run⟩
    have truncated := runProgram_truncated flushes fits laps program
    rw [run] at truncated
    obtain ⟨within, beyond⟩ := truncated.ends
    refine ⟨fun small => ⟨laps, within small⟩, fun exceeds => ?_⟩
    obtain ⟨stopped, fails, filled⟩ := beyond exceeds
    exact ⟨stopped, ⟨laps, fails⟩, filled⟩
  · rintro program machine outcome ⟨laps, run⟩
    have appended := (runProgram_steady laps program machine).appended
    rw [run, final_ended] at appended
    exact appended
  · rintro statement machine outcome ⟨laps, run⟩
    have appended := (execute_steady laps statement machine).appended
    rw [run, final_ended] at appended
    exact appended

/-- Writes a number with a sign and then a character of two bytes. -/
def writingBoth : Program :=
  Program.empty.define Program.mainName
    (.block [.assign (.plain "write") (.literal (-12)), .assign (.plain "put") (.literal 233)])

/-- Five bytes are enough for both. One byte is the sign without the digits, and four bytes end in
the middle of the character. -/
theorem runProgram_bounded_truncates_writingBoth :
    ProgramEnds writingBoth (((havingWritten "").under 2).holding none)
        (.ok () ((havingWritten "-12é").under 2)) ∧
      ProgramEnds writingBoth (((havingWritten "").under 2).holding (some 5))
        (.ok () (((havingWritten "-12é").under 2).holding (some 5))) ∧
      (∃ stopped,
        ProgramEnds writingBoth (((havingWritten "").under 2).holding (some 1))
          (.error (.runtime (.device .sinkFull)) stopped) ∧
        stopped.sink.written = "-".toUTF8) ∧
      ∃ stopped,
        ProgramEnds writingBoth (((havingWritten "").under 2).holding (some 4))
          (.error (.runtime (.device .sinkFull)) stopped) ∧
        stopped.sink.written = "-12".toUTF8.push 195 := by
  have number : execute 1 (.assign (.plain "write") (.literal (-12)))
      { (havingWritten "").under 2 with depth := 1 } =
        .ok () { (havingWritten "-12").under 2 with depth := 1 } := by
    have bytes : "".toUTF8 ++ (-12 : Word).decimal.toUTF8 = "-12".toUTF8 := by decide +kernel
    simp only [havingWritten]
    rw [← bytes]
    rfl
  have character : execute 1 (.assign (.plain "put") (.literal 233))
      { (havingWritten "-12").under 2 with depth := 1 } =
        .ok () { (havingWritten "-12é").under 2 with depth := 1 } := by
    have bytes : "-12".toUTF8 ++ (String.singleton 'é').toUTF8 = "-12é".toUTF8 := by
      decide +kernel
    simp only [havingWritten]
    rw [← bytes]
    rfl
  have inside : executeAll 1 [.assign (.plain "write") (.literal (-12)),
      .assign (.plain "put") (.literal 233)] { (havingWritten "").under 2 with depth := 1 } =
        .ok () { (havingWritten "-12é").under 2 with depth := 1 } := by
    rw [executeAll, bind_of_ok number, executeAll, bind_of_ok character]
    rfl
  have run : execute 1 (.block [.assign (.plain "write") (.literal (-12)),
      .assign (.plain "put") (.literal 233)]) ((havingWritten "").under 2) =
        .ok () ((havingWritten "-12é").under 2) := nested_of_ok (by decide) inside
  have isMain : writingBoth.main? = some (.block [.assign (.plain "write") (.literal (-12)),
      .assign (.plain "put") (.literal 233)]) := by
    rw [writingBoth, Program.main?, Program.find?_define, if_pos rfl]
  have ends : ProgramEnds writingBoth (((havingWritten "").under 2).holding none)
      (.ok () ((havingWritten "-12é").under 2)) := by
    refine ⟨1, ?_⟩
    simp only [runProgram, isMain]
    exact (flushing_eq (execute_steady 1 _) rfl).trans run
  have truncates (capacity : Nat) := runProgram_bounded_truncates.1 writingBoth
    ((havingWritten "").under 2) capacity _ rfl (Nat.zero_le capacity) ends
  refine ⟨ends, (truncates 5).1 (by decide +kernel), ?_, ?_⟩
  · obtain ⟨stopped, fails, filled⟩ := (truncates 1).2 (by decide +kernel)
    exact ⟨stopped, fails, filled.trans (by decide +kernel)⟩
  · obtain ⟨stopped, fails, filled⟩ := (truncates 4).2 (by decide +kernel)
    exact ⟨stopped, fails, filled.trans (by decide +kernel)⟩

end Slate.Machine
