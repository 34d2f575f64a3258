/-!
Steps that may fail and that keep a state, one after the other: how a run through a sequence splits
into the runs of its parts.
-/

set_option autoImplicit false

namespace Slate

variable {ε σ α β : Type}

theorem bind_of_ok
    {first : EStateM ε σ α} {next : α → EStateM ε σ β} {state after : σ} {value : α}
    (run : first state = .ok value after) : (first >>= next) state = next value after := by
  change EStateM.bind first next state = _
  simp only [EStateM.bind, run]

theorem bind_of_error
    {first : EStateM ε σ α} {next : α → EStateM ε σ β} {state after : σ} {failure : ε}
    (run : first state = .error failure after) :
    (first >>= next) state = .error failure after := by
  change EStateM.bind first next state = _
  simp only [EStateM.bind, run]

theorem bind_eq_ok_iff
    {first : EStateM ε σ α} {next : α → EStateM ε σ β} {state after : σ} {value : β} :
    (first >>= next) state = .ok value after ↔
      ∃ result middle, first state = .ok result middle ∧ next result middle = .ok value after := by
  change EStateM.bind first next state = _ ↔ _
  cases run : first state with
  | ok result middle =>
      simp only [EStateM.bind, run, EStateM.Result.ok.injEq]
      constructor
      · intro rest
        exact ⟨result, middle, ⟨rfl, rfl⟩, rest⟩
      · rintro ⟨_, _, ⟨rfl, rfl⟩, rest⟩
        exact rest
  | error failure middle => simp [EStateM.bind, run]

@[simp]
theorem pure_run (value : α) (state : σ) : (pure value : EStateM ε σ α) state = .ok value state :=
  rfl

@[simp]
theorem get_bind (next : σ → EStateM ε σ β) (state : σ) :
    ((get : EStateM ε σ σ) >>= next) state = next state state :=
  rfl

end Slate
