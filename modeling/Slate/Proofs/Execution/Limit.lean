import Slate.Proofs.Evaluation.Requests
import Slate.Proofs.Execution.Frame
import Slate.Proofs.Execution.Laps

/-!
The limit of a machine only cuts runs short. Two runs of one statement under different limits go on
in step until the lower limit is met. From there on only the run under the higher limit goes on, and
what it had written stays written. A statement that is no taller than the limit never meets it.
-/

set_option autoImplicit false

namespace Slate

mutual

/-- The most statements on a path from the root of the tree to a leaf. -/
def Stmt.nesting : Stmt → Nat
  | .block body => Stmt.nestingAll body + 1
  | .assign _ _ => 1
  | .branch _ accepted rejected => max accepted.nesting rejected.nesting + 1
  | .loop _ body => body.nesting + 1

def Stmt.nestingAll : List Stmt → Nat
  | [] => 0
  | statement :: rest => max statement.nesting (Stmt.nestingAll rest)

end

namespace Machine

variable {α β : Type}

/-- The same machine under another limit. -/
def under (machine : Machine) (limit : Nat) : Machine :=
  { machine with limit }

/-- How a run under a lower limit relates to the run under a higher one. They end alike, or the
lower limit cut the first run short and the second has written at least as much. -/
inductive Outlives (lower higher : Nat) :
    EStateM.Result Stop Machine α → EStateM.Result Stop Machine α → Prop
  | value (value : α) (after : Machine) :
      Outlives lower higher (.ok value (after.under lower)) (.ok value (after.under higher))
  | failure {cause : Failure} (shallow : ∀ reached, cause ≠ .runtime (.tooDeep reached))
      (after : Machine) :
      Outlives lower higher (.error (.failure cause) (after.under lower))
        (.error (.failure cause) (after.under higher))
  | cut {reached : Nat} {stopped : Machine} {outcome : EStateM.Result Stop Machine α}
      (appended : ∃ further, (final outcome).sink.written = stopped.sink.written ++ further) :
      Outlives lower higher (.error (.failure (.runtime (.tooDeep reached))) stopped) outcome
  | unfinished (stopped : Machine) (outcome : EStateM.Result Stop Machine α) :
      Outlives lower higher (.error .unfinished stopped) outcome

namespace Outlives

variable {lower higher : Nat} {low high : EStateM.Result Stop Machine α} {after : Machine}

theorem eq_ok {value : α} (outlives : Outlives lower higher (.ok value after) high) :
    high = .ok value (after.under higher) := by
  cases outlives
  rfl

theorem eq_error
    {cause : Failure} (outlives : Outlives lower higher (.error (.failure cause) after) high)
    (shallow : ∀ reached, cause ≠ .runtime (.tooDeep reached)) :
    high = .error (.failure cause) (after.under higher) := by
  cases outlives with
  | failure => rfl
  | cut => exact absurd rfl (shallow _)

theorem appended
    {reached : Nat}
    (outlives :
      Outlives lower higher (.error (.failure (.runtime (.tooDeep reached))) after) high) :
    ∃ further, (final high).sink.written = after.sink.written ++ further := by
  cases outlives with
  | failure shallow => exact absurd rfl (shallow reached)
  | cut appended => exact appended

end Outlives

/-- The second action outlives the first from every machine. It is steady, so that what it does
behind a cut only appends. -/
structure Raises (lower higher : Nat) (low high : Action α) : Prop where
  outlives : ∀ machine : Machine,
    Outlives lower higher (low (machine.under lower)) (high (machine.under higher))
  steady : Steady high

namespace Raises

variable {lower higher : Nat}

theorem pure (value : α) : Raises lower higher (Pure.pure value) (Pure.pure value) :=
  ⟨.value value, Steady.pure value⟩

theorem bind
    {low high : Action α} {lowNext highNext : α → Action β} (raises : Raises lower higher low high)
    (nextRaises : ∀ value, Raises lower higher (lowNext value) (highNext value)) :
    Raises lower higher (low >>= lowNext) (high >>= highNext) := by
  refine ⟨fun machine => ?_, raises.steady.bind fun value => (nextRaises value).steady⟩
  have step := raises.outlives machine
  generalize lowRun : low (machine.under lower) = lowOutcome at step
  generalize highRun : high (machine.under higher) = highOutcome at step
  cases step with
  | value value after =>
      rw [bind_of_ok lowRun, bind_of_ok highRun]
      exact (nextRaises value).outlives after
  | failure shallow after =>
      rw [bind_of_error lowRun, bind_of_error highRun]
      exact .failure shallow after
  | unfinished stopped outcome =>
      rw [bind_of_error lowRun]
      exact .unfinished stopped _
  | cut appended =>
      rw [bind_of_error lowRun]
      obtain ⟨further, written⟩ := appended
      cases highOutcome with
      | ok value after =>
          obtain ⟨more, moreWritten⟩ := ((nextRaises value).steady after).appended
          refine .cut ⟨further ++ more, ?_⟩
          rw [bind_of_ok highRun, moreWritten, ← ByteArray.append_assoc, ← written]
          rfl
      | error stop after =>
          rw [bind_of_error highRun]
          exact .cut ⟨further, written⟩

theorem reading
    {step : Store → EStateM Fault Input α}
    (shallow : ∀ store input fault after, step store input = .error fault after →
      ∀ reached, fault ≠ .tooDeep reached) :
    Raises lower higher (Machine.reading step) (Machine.reading step) := by
  refine ⟨fun machine => ?_, Steady.reading step⟩
  unfold Machine.reading
  cases run : step machine.store machine.input with
  | ok value input =>
      simp only [under, run]
      exact .value value { machine with input }
  | error fault input =>
      simp only [under, run]
      refine .failure (fun reached tooDeep => ?_) { machine with input }
      exact shallow _ _ _ _ run reached (Failure.runtime.inj tooDeep)

theorem writing (bytes : ByteArray) :
    Raises lower higher (sinking (Sink.write bytes)) (sinking (Sink.write bytes)) := by
  refine ⟨fun machine => ?_, Steady.writing bytes⟩
  unfold sinking
  cases run : Sink.write bytes machine.sink with
  | ok _ sink =>
      simp only [under, run]
      exact .value () { machine with sink }
  | error trouble sink =>
      simp only [under, run]
      exact .failure (fun _ => by simp) { machine with sink }

theorem deliver (slot : String) (value : Word) :
    Raises lower higher (Machine.deliver slot value) (Machine.deliver slot value) := by
  have steady := Steady.deliver slot value
  rcases deliver_cases slot value with ⟨bytes, written⟩ | refused | stored
  · rw [written]
    exact writing bytes
  · rw [refused] at steady ⊢
    exact ⟨fun machine => .failure (fun _ => by simp) machine, steady⟩
  · rw [stored] at steady ⊢
    exact ⟨fun machine => .value () { machine with store := machine.store.set slot value }, steady⟩

/-- The lower limit is met first, if at all. -/
theorem nested
    (raised : lower ≤ higher) {low high : Action α} (raises : Raises lower higher low high) :
    Raises lower higher (Machine.nested low) (Machine.nested high) := by
  refine ⟨fun machine => ?_, raises.steady.nested⟩
  by_cases met : (machine.under lower).limit ≤ (machine.under lower).depth
  · rw [nested_of_met met]
    exact .cut (raises.steady.nested (machine.under higher)).appended
  · have unmet : ¬ (machine.under higher).limit ≤ (machine.under higher).depth :=
      fun higherMet => met (Nat.le_trans raised higherMet)
    have step := raises.outlives { machine with depth := machine.depth + 1 }
    generalize lowRun : low _ = lowOutcome at step
    generalize highRun : high _ = highOutcome at step
    cases step with
    | value value after =>
        rw [nested_of_ok met lowRun, nested_of_ok unmet highRun]
        exact .value value { after with depth := after.depth - 1 }
    | failure shallow after =>
        rw [nested_of_error met lowRun, nested_of_error unmet highRun]
        exact .failure shallow { after with depth := after.depth - 1 }
    | unfinished stopped outcome =>
        rw [nested_of_error met lowRun]
        exact .unfinished _ _
    | cut appended =>
        rw [nested_of_error met lowRun]
        refine .cut ?_
        cases highOutcome with
        | ok value after =>
            rw [nested_of_ok unmet highRun]
            exact appended
        | error stop after =>
            rw [nested_of_error unmet highRun]
            exact appended

theorem congruence (raised : lower ≤ higher) : Congruence (fun _ => Raises lower higher) where
  pure := pure
  bind := bind
  evaluate expr := reading fun store _ _ _ fails => (expr.eval_asks store).ne_tooDeep fails
  slotOf ref := reading fun store _ _ _ fails => (ref.slot_asks store).ne_tooDeep fails
  deliver := deliver
  nested := nested raised
  unfinished := ⟨fun _ => .unfinished _ _, Steady.stop _⟩

end Raises

theorem execute_raises
    {lower higher : Nat} (raised : lower ≤ higher) (laps : Nat) (statement : Stmt) :
    Raises lower higher (execute laps statement) (execute laps statement) :=
  (Raises.congruence raised).execute (Nat.le_refl laps) (.inl rfl) statement

/-- With this much room below the limit the action never meets it. -/
structure Fits (room : Nat) (action : Action α) : Prop where
  unmet : ∀ {machine after : Machine} {reached : Nat}, machine.depth + room ≤ machine.limit →
    action machine ≠ .error (.failure (.runtime (.tooDeep reached))) after
  steady : Steady action

namespace Fits

variable {room : Nat}

theorem pure (value : α) : Fits room (Pure.pure value : Action α) :=
  ⟨fun _ => nofun, Steady.pure value⟩

theorem more {wider : Nat} {action : Action α} (fits : Fits room action) (noLess : room ≤ wider) :
    Fits wider action :=
  ⟨fun enough => fits.unmet (Nat.le_trans (Nat.add_le_add_left noLess _) enough), fits.steady⟩

/-- The second action has the room that the first one had. -/
theorem bind
    {first : Action α} {next : α → Action β} (fits : Fits room first)
    (nextFits : ∀ value, Fits room (next value)) : Fits room (first >>= next) := by
  refine ⟨fun {machine after reached} enough => ?_,
    fits.steady.bind fun value => (nextFits value).steady⟩
  have step := fits.steady machine
  cases run : first machine with
  | ok value middle =>
      rw [run] at step
      rw [bind_of_ok run]
      refine (nextFits value).unmet ?_
      calc middle.depth + room
        _ = machine.depth + room := by rw [← step.sameDepth]; rfl
        _ ≤ machine.limit := enough
        _ = middle.limit := step.sameLimit.symm
  | error stop middle =>
      rw [bind_of_error run]
      rintro ⟨⟩
      exact fits.unmet enough run

theorem nested {action : Action α} (fits : Fits room action) :
    Fits (room + 1) (Machine.nested action) := by
  refine ⟨fun {machine after reached} enough => ?_, fits.steady.nested⟩
  have unmet : ¬ machine.limit ≤ machine.depth := by omega
  cases run : action { machine with depth := machine.depth + 1 } with
  | ok value inside =>
      rw [nested_of_ok unmet run]
      nofun
  | error stop inside =>
      rw [nested_of_error unmet run]
      rintro ⟨⟩
      exact fits.unmet (by simp only; omega) run

theorem reading
    {step : Store → EStateM Fault Input α}
    (shallow : ∀ store input fault after, step store input = .error fault after →
      ∀ reached, fault ≠ .tooDeep reached) :
    Fits room (Machine.reading step) := by
  refine ⟨fun {machine after reached} _ fails => ?_, Steady.reading step⟩
  obtain ⟨fault, input, refused, same, _⟩ := reading_eq_error_iff.1 fails
  cases same
  exact shallow _ _ _ _ refused reached rfl

theorem deliver (slot : String) (value : Word) : Fits room (Machine.deliver slot value) := by
  refine ⟨fun {machine after reached} _ => ?_, Steady.deliver slot value⟩
  rcases deliver_cases slot value with ⟨bytes, written⟩ | refused | stored
  · rw [written]
    exact sinking_ne_tooDeep _ machine after reached
  · rw [refused]
    nofun
  · rw [stored]
    nofun

theorem sequential (room : Nat) : Sequential (fun _ action _ => Fits room action) where
  pure := pure
  bind := bind
  evaluate expr := reading fun store _ _ _ fails => (expr.eval_asks store).ne_tooDeep fails
  slotOf ref := reading fun store _ _ _ fails => (ref.slot_asks store).ne_tooDeep fails
  deliver := deliver
  unfinished := ⟨fun _ => nofun, Steady.stop _⟩

/-- Every lap has the room of the first one. -/
theorem repeatWhile
    {condition : Action Bool} {body : Action Unit} (conditionFits : Fits room condition)
    (bodyFits : Fits room body) (laps : Nat) :
    Fits room (Machine.repeatWhile condition body laps) :=
  @Sequential.repeatWhile _ (sequential room) laps laps (Nat.le_refl laps) (.inl rfl)
    condition condition body body conditionFits bodyFits

end Fits

mutual

theorem execute_fits (laps : Nat) :
    (statement : Stmt) → Fits statement.nesting (execute laps statement)
  | .block body => (executeAll_fits laps body).nested
  | .assign target value => ((Fits.sequential 0).assign target value).nested
  | .branch condition accepted rejected =>
      Fits.nested (((Fits.sequential _).holds condition).bind fun chosen =>
        match chosen with
        | true => (execute_fits laps accepted).more (Nat.le_max_left _ _)
        | false => (execute_fits laps rejected).more (Nat.le_max_right _ _))
  | .loop condition body =>
      Fits.nested (((Fits.sequential _).holds condition).repeatWhile (execute_fits laps body) laps)

theorem executeAll_fits (laps : Nat) :
    (body : List Stmt) → Fits (Stmt.nestingAll body) (executeAll laps body)
  | [] => Fits.pure ()
  | statement :: rest =>
      ((execute_fits laps statement).more (Nat.le_max_left _ _)).bind fun _ =>
        (executeAll_fits laps rest).more (Nat.le_max_right _ _)

end

theorem final_ended (outcome : EStateM.Result Failure Machine Unit) :
    final (ended outcome) = final outcome := by
  cases outcome <;> rfl

/-- A run under the lower limit that ends, beside a run under the higher limit with laps enough. -/
theorem Ends.outlives
    {lower higher : Nat} (raised : lower ≤ higher) {statement : Stmt} {machine : Machine}
    {low : EStateM.Result Failure Machine Unit} (ends : Ends statement (machine.under lower) low) :
    ∃ laps, ∀ more, laps ≤ more →
      Outlives lower higher (ended low) (execute more statement (machine.under higher)) := by
  obtain ⟨laps, run⟩ := ends.eventually
  refine ⟨laps, fun more enough => ?_⟩
  rw [← run more enough]
  exact (execute_raises raised more statement).outlives machine

/-- A limit only cuts runs short. A run that ends under a limit without meeting it ends in the same
way under a higher one, in the same state and with the same output. If the limit cuts it short, then
what was written until then is written first under the higher limit, too. And a statement that is
no taller than the limit does not meet it. -/
theorem execute_limit_only_cuts
    {lower higher : Nat} (raised : lower ≤ higher) (statement : Stmt) (machine : Machine)
    (outermost : machine.depth = 0) :
    (∀ after, Ends statement (machine.under lower) (.ok () after) →
      Ends statement (machine.under higher) (.ok () (after.under higher))) ∧
    (∀ cause after, (∀ reached, cause ≠ .runtime (.tooDeep reached)) →
      Ends statement (machine.under lower) (.error cause after) →
        Ends statement (machine.under higher) (.error cause (after.under higher))) ∧
    (∀ reached stopped outcome,
      Ends statement (machine.under lower) (.error (.runtime (.tooDeep reached)) stopped) →
        Ends statement (machine.under higher) outcome →
          ∃ further, (final outcome).sink.written = stopped.sink.written ++ further) ∧
    (statement.nesting ≤ lower → ∀ reached stopped,
      ¬ Ends statement (machine.under lower) (.error (.runtime (.tooDeep reached)) stopped)) := by
  refine ⟨fun after ends => ?_, fun cause after shallow ends => ?_,
    fun reached stopped outcome ends endsToo => ?_, fun low reached stopped ends => ?_⟩
  · obtain ⟨laps, outlives⟩ := ends.outlives raised
    exact ⟨laps, (outlives laps (Nat.le_refl laps)).eq_ok⟩
  · obtain ⟨laps, outlives⟩ := ends.outlives raised
    exact ⟨laps, (outlives laps (Nat.le_refl laps)).eq_error shallow⟩
  · obtain ⟨laps, outlives⟩ := ends.outlives raised
    obtain ⟨others, run⟩ := endsToo.eventually
    -- The two runs are compared after laps that are enough for both.
    have both := (outlives (max laps others) (Nat.le_max_left _ _)).appended
    rw [run _ (Nat.le_max_right _ _), final_ended] at both
    exact both
  · obtain ⟨laps, run⟩ := ends
    refine (execute_fits laps statement).unmet ?_ run
    simp only [under, outermost]
    omega

/-- An output, and another one a level further in. -/
def twoLevels : Stmt :=
  .block [.assign (.plain "write") (.literal 1),
    .block [.assign (.plain "write") (.literal 2)]]

/-- A machine that has done nothing but write a text. -/
def havingWritten (text : String) : Machine :=
  start 0 ⟨[], []⟩ ⟨text.toUTF8, none, false⟩

/-- Three levels are enough for both outputs. Two levels cut the run short after the first one. -/
theorem execute_limit_only_cuts_twoLevels :
    Ends twoLevels ((havingWritten "").under 4) (.ok () ((havingWritten "12").under 4)) ∧
    Ends (.assign (.plain "x") (.binary .divide (.literal 1) (.literal 0)))
      ((havingWritten "").under 2)
      (.error (.runtime .divisionByZero) ((havingWritten "").under 2)) ∧
    (Ends twoLevels ((havingWritten "").under 2)
        (.error (.runtime (.tooDeep 2)) ((havingWritten "1").under 2)) ∧
      ∃ further, "12".toUTF8 = "1".toUTF8 ++ further) ∧
    ∀ reached stopped,
      ¬ Ends twoLevels ((havingWritten "").under 3)
        (.error (.runtime (.tooDeep reached)) stopped) := by
  have outermost : (havingWritten "").depth = 0 := rfl
  have outer : execute 1 (.assign (.plain "write") (.literal 1))
      { (havingWritten "").under 3 with depth := 1 } =
        .ok () { (havingWritten "1").under 3 with depth := 1 } := rfl
  have inner : executeAll 1 [.block [.assign (.plain "write") (.literal 2)]]
      { (havingWritten "1").under 3 with depth := 1 } =
        .ok () { (havingWritten "12").under 3 with depth := 1 } := rfl
  have both : executeAll 1 [.assign (.plain "write") (.literal 1),
        .block [.assign (.plain "write") (.literal 2)]]
      { (havingWritten "").under 3 with depth := 1 } =
        .ok () { (havingWritten "12").under 3 with depth := 1 } := by
    rw [executeAll, bind_of_ok outer, inner]
  have complete : Ends twoLevels ((havingWritten "").under 3)
      (.ok () ((havingWritten "12").under 3)) := by
    refine ⟨1, ?_⟩
    rw [twoLevels, execute]
    exact nested_of_ok (by decide) both
  have cut : Ends twoLevels ((havingWritten "").under 2)
      (.error (.runtime (.tooDeep 2)) ((havingWritten "1").under 2)) := ⟨1, rfl⟩
  have failed : Ends (.assign (.plain "x") (.binary .divide (.literal 1) (.literal 0)))
      ((havingWritten "").under 1)
      (.error (.runtime .divisionByZero) ((havingWritten "").under 1)) := ⟨1, rfl⟩
  refine ⟨?_, ?_, ⟨cut, ?_⟩, ?_⟩
  · exact (execute_limit_only_cuts (Nat.le_succ 3) _ _ outermost).1
      ((havingWritten "12").under 3) complete
  · exact (execute_limit_only_cuts (Nat.le_succ 1) _ _ outermost).2.1 _
      ((havingWritten "").under 1) (by simp) failed
  · exact (execute_limit_only_cuts (Nat.le_succ 2) _ _ outermost).2.2.1 _ _ _ cut complete
  · exact (execute_limit_only_cuts (Nat.le_refl 3) _ _ outermost).2.2.2 (by decide)

end Machine

end Slate
