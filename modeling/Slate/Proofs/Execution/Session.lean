import Slate.Proofs.Execution.Effects

/-!
Sessions. A machine is asked for one thing after the other, and what it is asked may fail. Between
the steps it always stands at the outermost level, so that a step does what it would do on a fresh
machine with the same store, input, sink and limit. A source that is no program changes nothing. A
step that fails later on leaves behind what it had stored and written until then, and from there the
next step goes on.
-/

set_option autoImplicit false

namespace Slate.Machine

/-- What can be asked of a machine. -/
inductive Step
  | runSource (source : String)
  | runProgram (program : Program)
  | execute (statement : Stmt)
  | evaluate (expr : Expr)
  | slotOf (ref : Ref)
  | setLimit (limit : Nat)

inductive Answer
  | done
  | value (word : Word)
  | slot (name : String)

namespace Step

def run (laps : Nat) : Step → Action Answer
  | .runSource source => do
      Machine.runSource laps source
      return .done
  | .runProgram program => do
      Machine.runProgram laps program
      return .done
  | .execute statement => do
      Machine.execute laps statement
      return .done
  | .evaluate expr => return .value (← Machine.evaluate expr)
  | .slotOf ref => return .slot (← Machine.slotOf ref)
  | .setLimit limit => do
      Machine.setLimit limit
      return .done

end Step

/-- The step, taken on the machine, ends with this result and leaves the other machine, after
however many laps. -/
def Takes (step : Step) (before : Machine) (result : Except Failure Answer) (after : Machine) :
    Prop :=
  ∃ laps, step.run laps before =
    match result with
    | .ok answer => .ok answer after
    | .error cause => .error (.failure cause) after

/-- The steps, taken one after the other with these results, lead from one machine to the other.
After a step that fails the session goes on. -/
inductive Session : Machine → List (Step × Except Failure Answer) → Machine → Prop
  | nil (machine : Machine) : Session machine [] machine
  | cons {step : Step} {result : Except Failure Answer} {before middle after : Machine}
      {further : List (Step × Except Failure Answer)} :
      Takes step before result middle → Session middle further after →
        Session before ((step, result) :: further) after

/-- A fresh machine that is given a store. -/
def resuming (store : Store) (input : Input) (sink : Sink) (limit : Nat) : Machine :=
  { start limit input sink with store }

theorem eq_resuming {machine : Machine} (outermost : machine.depth = 0) :
    machine = resuming machine.store machine.input machine.sink machine.limit := by
  obtain ⟨store, input, sink, limit, depth⟩ := machine
  subst outermost
  rfl

/-- Flushing leaves the sink as it is, also where it is refused. -/
theorem final_flush (machine : Machine) : final (sinking Sink.flush machine) = machine := by
  unfold sinking Sink.flush
  cases machine.sink.refusesFlush <;> rfl

theorem final_flushing (action : Action Unit) (machine : Machine) :
    final (flushing action machine) = final (action machine) := by
  cases run : action machine with
  | ok value after =>
      simp only [flushing, run]
      exact final_flush after
  | error stop after =>
      cases stop with
      | unfinished => simp only [flushing, run]
      | failure cause =>
          have flushed := final_flush after
          cases flushRun : sinking Sink.flush after with
          | ok value other =>
              rw [flushRun] at flushed
              simp only [flushing, run, flushRun]
              exact flushed
          | error stop other =>
              rw [flushRun] at flushed
              simp only [flushing, run, flushRun]
              exact flushed

theorem runProgram_steady (laps : Nat) (program : Program) :
    Steady (runProgram laps program) := by
  intro machine
  unfold runProgram
  cases program.main? with
  | none => exact Steady.pure () machine
  | some main =>
      simp only [final_flushing]
      exact execute_steady laps main machine

theorem runSource_steady (laps : Nat) (source : String) : Steady (runSource laps source) := by
  intro machine
  unfold runSource
  rw [get_bind]
  cases Program.ofSource machine.limit source with
  | ok program => exact runProgram_steady laps program machine
  | error cause => exact Steady.stop _ machine

/-- The effects of a program are those of its main program. -/
def programEffects (laps : Nat) (program : Program) : Log :=
  match program.main? with
  | none => silent
  | some main => effects laps main

theorem runProgram_causes (laps : Nat) (program : Program) :
    Causes (runProgram laps program) (programEffects laps program) := by
  intro machine
  unfold runProgram programEffects
  cases program.main? with
  | none => exact Causes.pure () machine
  | some main =>
      simp only [final_flushing]
      exact execute_causes laps main machine

/-- A source that is no program has no effects. -/
def sourceEffects (laps : Nat) (source : String) : Log := fun machine =>
  match Program.ofSource machine.limit source with
  | .ok program => programEffects laps program machine
  | .error _ => []

theorem runSource_causes (laps : Nat) (source : String) :
    Causes (runSource laps source) (sourceEffects laps source) := by
  intro machine
  unfold runSource sourceEffects
  rw [get_bind]
  cases Program.ofSource machine.limit source with
  | ok program => exact runProgram_causes laps program machine
  | error cause => exact Causes.stop _ machine

theorem runSource_of_error
    {machine : Machine} {source : String} {cause : Failure}
    (fails : Program.ofSource machine.limit source = .error cause) (laps : Nat) :
    runSource laps source machine = .error (.failure cause) machine := by
  unfold runSource
  rw [get_bind, fails]
  rfl

/-- What is computed from the result of an action changes nothing. -/
theorem final_map {α β : Type} (action : Action α) (build : α → β) (machine : Machine) :
    final ((do return build (← action)) machine) = final (action machine) := by
  cases run : action machine with
  | ok value after => rw [bind_of_ok run]; rfl
  | error stop after => rw [bind_of_error run]; rfl

namespace Step

def effects (laps : Nat) : Step → Log
  | .runSource source => sourceEffects laps source
  | .runProgram program => programEffects laps program
  | .execute statement => Machine.effects laps statement
  | .evaluate _ | .slotOf _ | .setLimit _ => silent

/-- Whether or not it fails, a step comes back to the level where it began, and all that it leaves
behind in the store and the sink are its effects. -/
theorem run_leaves (laps : Nat) (step : Step) (machine : Machine) :
    Undergoes (step.effects laps machine) machine (final (step.run laps machine)) ∧
      (final (step.run laps machine)).depth = machine.depth := by
  cases step with
  | runSource source =>
      rw [run, final_map]
      exact ⟨runSource_causes laps source machine, (runSource_steady laps source machine).sameDepth⟩
  | runProgram program =>
      rw [run, final_map]
      exact ⟨runProgram_causes laps program machine,
        (runProgram_steady laps program machine).sameDepth⟩
  | execute statement =>
      rw [run, final_map]
      exact ⟨execute_causes laps statement machine,
        (execute_steady laps statement machine).sameDepth⟩
  | evaluate expr =>
      rw [run, final_map]
      exact ⟨Causes.reading _ machine, (Steady.reading _ machine).sameDepth⟩
  | slotOf ref =>
      rw [run, final_map]
      exact ⟨Causes.reading _ machine, (Steady.reading _ machine).sameDepth⟩
  | setLimit limit => exact ⟨⟨rfl, rfl⟩, rfl⟩

end Step

theorem Takes.leaves
    {step : Step} {result : Except Failure Answer} {before after : Machine}
    (takes : Takes step before result after) :
    ∃ laps, Undergoes (step.effects laps before) before after ∧ after.depth = before.depth := by
  obtain ⟨laps, run⟩ := takes
  have left := step.run_leaves laps before
  rw [run] at left
  cases result with
  | ok answer => exact ⟨laps, left⟩
  | error cause => exact ⟨laps, left⟩

theorem Session.depth_eq
    {steps : List (Step × Except Failure Answer)} {before after : Machine}
    (session : Session before steps after) : after.depth = before.depth := by
  induction session with
  | nil => rfl
  | cons takes _ inductionHypothesis =>
      obtain ⟨_, _, sameDepth⟩ := takes.leaves
      exact inductionHypothesis.trans sameDepth

/-- After whatever steps, of which any may have failed, the machine is at the outermost level again.
So the next step does what it would do on a fresh machine with the same store, input, sink and
limit. If it runs a source that is no program, then nothing but its failure comes of it. If it fails
later on, then the step behind it finds the store and the sink with all that was stored and written
until the failure. -/
theorem session_steps_afresh
    {first machine : Machine} {steps : List (Step × Except Failure Answer)}
    (outermost : first.depth = 0) (session : Session first steps machine) :
    machine.depth = 0 ∧
    (∀ step laps, Step.run laps step machine =
      step.run laps (resuming machine.store machine.input machine.sink machine.limit)) ∧
    (∀ source cause, Program.ofSource machine.limit source = .error cause →
      ∀ result after, Takes (.runSource source) machine result after ↔
        result = .error cause ∧ after = machine) ∧
    (∀ step laps cause after, Step.run laps step machine = .error (.failure cause) after →
      ∀ next further, Step.run further next after =
        next.run further (resuming (machine.store.after (step.effects laps machine)) after.input
          (machine.sink.after (step.effects laps machine)) after.limit)) := by
  have sameDepth : machine.depth = 0 := session.depth_eq.trans outermost
  refine ⟨sameDepth, ?_, ?_, ?_⟩
  · intro step laps
    rw [← eq_resuming sameDepth]
  · intro source cause fails result after
    have run (laps : Nat) :
        Step.run laps (.runSource source) machine = .error (.failure cause) machine :=
      bind_of_error (runSource_of_error fails laps)
    constructor
    · rintro ⟨laps, taken⟩
      rw [run] at taken
      cases result with
      | ok answer => cases taken
      | error other =>
          cases taken
          exact ⟨rfl, rfl⟩
    · rintro ⟨rfl, rfl⟩
      exact ⟨0, run 0⟩
  · intro step laps cause after fails next further
    have left := step.run_leaves laps machine
    simp only [fails, final] at left
    obtain ⟨undergone, afterDepth⟩ := left
    rw [← undergone.store, ← undergone.sink, ← eq_resuming (afterDepth.trans sameDepth)]

/-- Stores a value, writes it and then divides by zero. -/
def dividingLast : Stmt :=
  .block [.assign (.plain "x") (.literal 5), .assign (.plain "write") (.reference (.plain "x")),
    .assign (.plain "y") (.binary .divide (.literal 1) (.literal 0))]

/-- A fresh machine on which this was tried. -/
def havingDivided : Machine :=
  resuming (Store.empty.set "x" 5) ⟨[], []⟩ ⟨"5".toUTF8, none, false⟩ 2

/-- A division by zero two levels in, and a text that is no program. Behind both the machine is at
the outermost level, with what was stored and written before the division. -/
theorem session_steps_afresh_dividingLast :
    Session (start 2 ⟨[], []⟩ .unlimited)
        [(.execute dividingLast, .error (.runtime .divisionByZero)),
          (.runSource "x", .error (.parse (.unexpectedEnd .assignmentOperator)))] havingDivided ∧
      havingDivided.depth = 0 ∧
      ∀ step laps, Step.run laps step havingDivided =
        step.run laps (resuming
          (Store.empty.after
            (Step.effects 1 (.execute dividingLast) (start 2 ⟨[], []⟩ .unlimited))) ⟨[], []⟩
          (Sink.unlimited.after
            (Step.effects 1 (.execute dividingLast) (start 2 ⟨[], []⟩ .unlimited))) 2) := by
  have stored : execute 1 (.assign (.plain "x") (.literal 5))
      { start 2 ⟨[], []⟩ .unlimited with depth := 1 } =
        .ok () { havingDivided with sink := .unlimited, depth := 1 } := rfl
  have written : execute 1 (.assign (.plain "write") (.reference (.plain "x")))
      { havingDivided with sink := .unlimited, depth := 1 } =
        .ok () { havingDivided with depth := 1 } := rfl
  have divided : execute 1 (.assign (.plain "y") (.binary .divide (.literal 1) (.literal 0)))
      { havingDivided with depth := 1 } =
        .error (.failure (.runtime .divisionByZero)) { havingDivided with depth := 1 } := rfl
  have failed : Step.run 1 (.execute dividingLast) (start 2 ⟨[], []⟩ .unlimited) =
      .error (.failure (.runtime .divisionByZero)) havingDivided := by
    have inside : executeAll 1 [.assign (.plain "x") (.literal 5),
        .assign (.plain "write") (.reference (.plain "x")),
        .assign (.plain "y") (.binary .divide (.literal 1) (.literal 0))]
          { start 2 ⟨[], []⟩ .unlimited with depth := 1 } =
            .error (.failure (.runtime .divisionByZero)) { havingDivided with depth := 1 } := by
      rw [executeAll, bind_of_ok stored, executeAll, bind_of_ok written, executeAll,
        bind_of_error divided]
    refine bind_of_error ?_
    rw [dividingLast, execute]
    exact nested_of_error (by decide) inside
  have taken : Takes (.execute dividingLast) (start 2 ⟨[], []⟩ .unlimited)
      (.error (.runtime .divisionByZero)) havingDivided := ⟨1, failed⟩
  have noProgram : Program.ofSource havingDivided.limit "x" =
      .error (.parse (.unexpectedEnd .assignmentOperator)) := rfl
  have refused := ((session_steps_afresh rfl (.cons taken (.nil _))).2.2.1 _ _ noProgram _ _).2
    ⟨rfl, rfl⟩
  have both := Session.cons taken (.cons refused (.nil _))
  refine ⟨both, (session_steps_afresh rfl both).1, ?_⟩
  exact (session_steps_afresh rfl (.nil (start 2 ⟨[], []⟩ .unlimited))).2.2.2
    (.execute dividingLast) 1 _ _ failed

end Slate.Machine
