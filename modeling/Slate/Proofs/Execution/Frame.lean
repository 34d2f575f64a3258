import Slate.Proofs.Execution.Congruence
import Slate.Proofs.Execution.Step

/-!
What execution leaves alone. However it ends, a machine has the limit it had before and is back at
the depth where it began. Its sink lets itself be flushed as before, and what was written is still
there, with possibly more behind it.
-/

set_option autoImplicit false

namespace Slate

/-- A sink takes all bytes, or it is full and takes those that fit. -/
theorem Sink.write_cases (bytes : ByteArray) (sink : Sink) :
    write bytes sink = .ok () { sink with written := sink.written ++ bytes } ∨
      ∃ room, write bytes sink =
        .error .sinkFull { sink with written := sink.written ++ bytes.extract 0 room } := by
  obtain ⟨written, _ | capacity, refusesFlush⟩ := sink
  · exact .inl (if_pos (Nat.le_refl bytes.size))
  · by_cases fits : bytes.size ≤ capacity - written.size
    · exact .inl (if_pos fits)
    · exact .inr ⟨_, if_neg fits⟩

namespace Machine

variable {α β : Type}

/-- The machine in which an action ends. -/
def final {ε : Type} : EStateM.Result ε Machine α → Machine
  | .ok _ after => after
  | .error _ after => after

/-- The later machine stands at the same depth under the same limit, and its output continues that
of the earlier one. -/
structure Continues (before after : Machine) : Prop where
  sameLimit : after.limit = before.limit
  sameDepth : after.depth = before.depth
  sameFlush : after.sink.refusesFlush = before.sink.refusesFlush
  appended : ∃ further, after.sink.written = before.sink.written ++ further

namespace Continues

theorem refl (machine : Machine) : Continues machine machine :=
  ⟨rfl, rfl, rfl, .empty, ByteArray.append_empty.symm⟩

theorem trans
    {before middle after : Machine} (first : Continues before middle)
    (second : Continues middle after) : Continues before after := by
  obtain ⟨earlier, firstWritten⟩ := first.appended
  obtain ⟨later, secondWritten⟩ := second.appended
  refine ⟨second.sameLimit.trans first.sameLimit, second.sameDepth.trans first.sameDepth,
    second.sameFlush.trans first.sameFlush, earlier ++ later, ?_⟩
  rw [secondWritten, firstWritten, ByteArray.append_assoc]

end Continues

/-- From whatever machine the action starts, it ends in one that continues it. -/
def Steady (action : Action α) : Prop :=
  ∀ machine, Continues machine (final (action machine))

namespace Steady

theorem pure (value : α) : Steady (Pure.pure value : Action α) :=
  Continues.refl

theorem stop (cause : Stop) : Steady (throw cause : Action α) :=
  Continues.refl

theorem bind
    {first : Action α} {next : α → Action β} (steady : Steady first)
    (nextSteady : ∀ value, Steady (next value)) : Steady (first >>= next) := by
  intro machine
  have step := steady machine
  cases run : first machine with
  | ok value after =>
      rw [run] at step
      rw [bind_of_ok run]
      exact step.trans (nextSteady value after)
  | error stop after =>
      rw [run] at step
      rw [bind_of_error run]
      exact step

theorem reading (step : Store → EStateM Fault Input α) : Steady (Machine.reading step) := by
  intro machine
  unfold Machine.reading
  split
  · exact ⟨rfl, rfl, rfl, .empty, ByteArray.append_empty.symm⟩
  · exact ⟨rfl, rfl, rfl, .empty, ByteArray.append_empty.symm⟩

theorem writing (bytes : ByteArray) : Steady (sinking (Sink.write bytes)) := by
  intro machine
  unfold sinking
  rcases Sink.write_cases bytes machine.sink with taken | ⟨room, full⟩
  · rw [taken]
    exact ⟨rfl, rfl, rfl, _, rfl⟩
  · rw [full]
    exact ⟨rfl, rfl, rfl, _, rfl⟩

theorem deliver (slot : String) (value : Word) : Steady (Machine.deliver slot value) := by
  rcases deliver_cases slot value with ⟨bytes, written⟩ | refused | stored
  · rw [written]
    exact writing bytes
  · rw [refused]
    exact stop _
  · rw [stored]
    intro machine
    exact ⟨rfl, rfl, rfl, .empty, ByteArray.append_empty.symm⟩

/-- Going one level further in is taken back, whether or not the action inside succeeds. -/
theorem nested {action : Action α} (steady : Steady action) : Steady (Machine.nested action) := by
  intro machine
  by_cases met : machine.limit ≤ machine.depth
  · rw [nested_of_met met]
    exact Continues.refl machine
  · have inside := steady { machine with depth := machine.depth + 1 }
    cases run : action { machine with depth := machine.depth + 1 } with
    | ok value after =>
        rw [run] at inside
        rw [nested_of_ok met run]
        exact ⟨inside.sameLimit, Nat.sub_eq_of_eq_add inside.sameDepth, inside.sameFlush,
          inside.appended⟩
    | error stop after =>
        rw [run] at inside
        rw [nested_of_error met run]
        exact ⟨inside.sameLimit, Nat.sub_eq_of_eq_add inside.sameDepth, inside.sameFlush,
          inside.appended⟩

theorem congruence : Congruence (fun _ action _ => Steady action) where
  pure := pure
  bind := bind
  evaluate _ := reading _
  slotOf _ := reading _
  deliver := deliver
  nested := nested
  unfinished := stop _

end Steady

theorem execute_steady (laps : Nat) (statement : Stmt) : Steady (execute laps statement) :=
  Steady.congruence.execute (Nat.le_refl laps) (.inl rfl) statement

end Machine

end Slate
