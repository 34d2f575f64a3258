import Slate.Machine
import Slate.Proofs.Sequence

/-!
Single actions of a machine: what each of them does to the machine, in success and in failure.
-/

set_option autoImplicit false

namespace Slate.Machine

variable {α : Type} {machine after : Machine}

theorem reading_eq_ok_iff
    {step : Store → EStateM Fault Input α} {value : α} :
    reading step machine = .ok value after ↔
      ∃ input, step machine.store machine.input = .ok value input ∧
        after = { machine with input } := by
  unfold reading
  cases step machine.store machine.input with
  | ok result input =>
      constructor
      · rintro ⟨⟩
        exact ⟨input, rfl, rfl⟩
      · rintro ⟨_, ⟨⟩, rfl⟩
        rfl
  | error fault input => simp

theorem reading_eq_error_iff
    {step : Store → EStateM Fault Input α} {stop : Stop} :
    reading step machine = .error stop after ↔
      ∃ fault input, step machine.store machine.input = .error fault input ∧
        stop = .failure (.runtime fault) ∧ after = { machine with input } := by
  unfold reading
  cases step machine.store machine.input with
  | ok result input => simp
  | error fault input =>
      constructor
      · rintro ⟨⟩
        exact ⟨fault, input, rfl, rfl, rfl⟩
      · rintro ⟨_, _, ⟨⟩, rfl, rfl⟩
        rfl

/-- Trouble with the sink has nothing to do with depth. -/
theorem sinking_ne_tooDeep
    (step : EStateM Trouble Sink Unit) (machine after : Machine) (reached : Nat) :
    sinking step machine ≠ .error (.failure (.runtime (.tooDeep reached))) after := by
  unfold sinking
  cases step machine.sink with
  | ok _ sink => nofun
  | error trouble sink => nofun

/-- A value is written, refused or stored. Which of these it is does not hang on the machine. -/
theorem deliver_cases (slot : String) (value : Word) :
    (∃ bytes, deliver slot value = sinking (Sink.write bytes)) ∨
      deliver slot value = fail (.invalidCharacter value) ∨
      deliver slot value =
        modify fun machine => { machine with store := machine.store.set slot value } := by
  unfold deliver
  split
  · exact .inl ⟨_, rfl⟩
  · split
    · split
      · exact .inl ⟨_, rfl⟩
      · exact .inr (.inl rfl)
    · exact .inr (.inr rfl)

theorem nested_of_met {action : Action α} (met : machine.limit ≤ machine.depth) :
    nested action machine = .error (.failure (.runtime (.tooDeep machine.limit))) machine :=
  if_pos met

theorem nested_of_ok
    {action : Action α} {value : α} (unmet : ¬ machine.limit ≤ machine.depth)
    (run : action { machine with depth := machine.depth + 1 } = .ok value after) :
    nested action machine = .ok value { after with depth := after.depth - 1 } := by
  rw [nested, if_neg unmet, run]

theorem nested_of_error
    {action : Action α} {stop : Stop} (unmet : ¬ machine.limit ≤ machine.depth)
    (run : action { machine with depth := machine.depth + 1 } = .error stop after) :
    nested action machine = .error stop { after with depth := after.depth - 1 } := by
  rw [nested, if_neg unmet, run]

theorem nested_eq_ok
    {action : Action α} {value : α} (run : nested action machine = .ok value after) :
    ∃ inside, action { machine with depth := machine.depth + 1 } = .ok value inside ∧
      after = { inside with depth := inside.depth - 1 } := by
  unfold nested at run
  split at run
  next => cases run
  next =>
    split at run
    next inside success =>
      cases run
      exact ⟨inside, success, rfl⟩
    next => cases run

end Slate.Machine
