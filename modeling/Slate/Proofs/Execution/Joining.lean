import Slate.Proofs.Execution.Frame
import Slate.Proofs.Execution.Laps
import Slate.Proofs.Execution.Limit
import Slate.Proofs.Grammar.Prolongation
import Slate.Proofs.Token.Separation

/-!
Running two sources in turn and running them as one. The store, the input and the sink stay with the
machine from one run to the next, and a block does one statement after the other. So two sources
that are complete by themselves do the same in turn as the source that joins them.
-/

set_option autoImplicit false

namespace Slate.Machine

open Grammar

theorem executeAll_append (laps : Nat) (first second : List Stmt) :
    executeAll laps (first ++ second) =
      (do executeAll laps first; executeAll laps second) := by
  induction first with
  | nil => rfl
  | cons statement first inductionHypothesis =>
      rw [List.cons_append, executeAll, executeAll, inductionHypothesis, bind_assoc]

/-- Coming back one level between two actions makes no difference. -/
theorem nested_bind {first second : Action Unit} (steady : Steady first) :
    nested (do first; second) = (do nested first; nested second) := by
  funext machine
  by_cases met : machine.limit ≤ machine.depth
  · rw [nested_of_met met, bind_of_error (nested_of_met met)]
  have inside := steady { machine with depth := machine.depth + 1 }
  cases run : first { machine with depth := machine.depth + 1 } with
  | ok value middle =>
      rw [run] at inside
      obtain ⟨sameLimit, sameDepth, _, _⟩ := inside
      simp only [final] at sameLimit sameDepth
      have unmet : ¬ middle.limit ≤ middle.depth - 1 := by omega
      have reentered : { middle with depth := middle.depth - 1 + 1 } = middle := by
        rw [sameDepth, Nat.add_sub_cancel, ← sameDepth]
      rw [bind_of_ok (nested_of_ok met run)]
      have both : (do first; second : Action Unit) { machine with depth := machine.depth + 1 } =
          second middle := bind_of_ok run
      cases secondRun : second middle with
      | ok value after =>
          rw [nested_of_ok met (both.trans secondRun)]
          exact (nested_of_ok unmet (by rwa [reentered])).symm
      | error stop after =>
          rw [nested_of_error met (both.trans secondRun)]
          exact (nested_of_error unmet (by rwa [reentered])).symm
  | error stop middle =>
      rw [nested_of_error met (bind_of_error run), bind_of_error (nested_of_error met run)]

theorem execute_block_append (laps : Nat) (first second : List Stmt) :
    execute laps (.block (first ++ second)) =
      (do execute laps (.block first); execute laps (.block second)) := by
  have steady : Steady (executeAll laps first) :=
    Steady.congruence.executeAll (Nat.le_refl laps) (.inl rfl) first
  rw [execute, execute, execute, executeAll_append, nested_bind steady]

/-- A block of one statement does what the statement does one level further in. -/
theorem execute_singleton
    {laps : Nat} {statement : Stmt} {machine after : Machine}
    (unmet : ¬ machine.limit ≤ machine.depth)
    (run : execute laps statement { machine with depth := machine.depth + 1 } = .ok () after) :
    execute laps (.block [statement]) machine = .ok () { after with depth := after.depth - 1 } := by
  rw [execute]
  refine nested_of_ok unmet ?_
  rw [executeAll, bind_of_ok run]
  rfl

theorem flush_run {machine : Machine} (flushes : machine.sink.refusesFlush = false) :
    sinking Sink.flush machine = .ok () machine := by
  simp [sinking, Sink.flush, flushes]

/-- A sink that lets itself be flushed leaves no trace of it. -/
theorem flushing_eq
    {action : Action Unit} (steady : Steady action) {machine : Machine}
    (flushes : machine.sink.refusesFlush = false) : flushing action machine = action machine := by
  have willing := (steady machine).sameFlush.trans flushes
  cases run : action machine with
  | ok value after =>
      simp only [run, final] at willing
      simp only [flushing, run, flush_run willing]
  | error stop after =>
      simp only [run, final] at willing
      cases stop with
      | unfinished => simp only [flushing, run]
      | failure cause => simp only [flushing, run, flush_run willing]

theorem Persists.flushing {action other : Action Unit} (persists : Persists action other) :
    Persists (flushing action) (flushing other) := by
  intro machine
  rcases persists machine with ⟨stopped, unfinished⟩ | same
  · refine .inl ⟨stopped, ?_⟩
    rw [Machine.flushing, unfinished]
  · refine .inr ?_
    rw [Machine.flushing, Machine.flushing, same]

theorem runProgram_persists {fewer laps : Nat} (noMore : fewer ≤ laps) (program : Program) :
    Persists (runProgram fewer program) (runProgram laps program) := by
  unfold runProgram
  cases program.main? with
  | none => exact Persists.refl _
  | some main => exact (execute_persists noMore main).flushing

theorem runSource_persists {fewer laps : Nat} (noMore : fewer ≤ laps) (source : String) :
    Persists (runSource fewer source) (runSource laps source) := by
  refine Persists.bind (Persists.refl _) fun machine => ?_
  cases Program.ofSource machine.limit source with
  | ok program => exact runProgram_persists noMore program
  | error cause => exact Persists.refl _

/-- The source, run on the machine, ends in this way, after however many laps. -/
def RunEnds (source : String) (machine : Machine)
    (outcome : EStateM.Result Failure Machine Unit) : Prop :=
  ∃ laps, runSource laps source machine = ended outcome

/-- The main program alone, which a program without statements outside procedures lacks. -/
def executeMain (laps : Nat) : Option Stmt → Action Unit
  | none => return ()
  | some main => execute laps main

theorem executeMain_steady (laps : Nat) (main? : Option Stmt) :
    Steady (executeMain laps main?) := by
  cases main? with
  | none => exact Steady.pure ()
  | some main => exact execute_steady laps main

theorem executeMain_joined
    {laps : Nat} {first second joined : Option Stmt} (joins : JoinsMain first second joined) :
    executeMain laps joined = (do executeMain laps first; executeMain laps second) := by
  cases joins with
  | second main? => exact (pure_bind _ _).symm
  | first main? => exact (bind_pure _).symm
  | both body further => exact execute_block_append laps body further

theorem runSource_eq
    {source : String} {program : Program} {machine : Machine}
    (parsed : Program.ofSource machine.limit source = .ok program)
    (flushes : machine.sink.refusesFlush = false) (laps : Nat) :
    runSource laps source machine = executeMain laps program.main? machine := by
  unfold runSource
  rw [get_bind, parsed]
  simp only [runProgram]
  cases program.main? with
  | none => rfl
  | some main => exact flushing_eq (execute_steady laps main) flushes

/-- A source that is complete by itself: it makes a program under the limit, it has no procedures,
and its braces are balanced. -/
structure Complete (limit : Nat) (source : String) (tokens : List Token) : Prop where
  scanned : Token.scan source = .ok tokens
  parses : ∃ program, Program.ofTokens limit tokens = .ok program
  noProcedures : ∀ name, .procedure name ∉ tokens
  balanced : Balanced tokens

theorem ofSource_eq
    {limit : Nat} {source : String} {tokens : List Token} {program : Program}
    (scanned : Token.scan source = .ok tokens)
    (parsed : Program.ofTokens limit tokens = .ok program) :
    Program.ofSource limit source = .ok program := by
  simp only [Program.ofSource, scanned, Except.mapError, bind, Except.bind, parsed]

theorem Complete.joined
    {limit : Nat} {first second : String} {tokens others : List Token}
    (complete : Complete limit first tokens) (completeToo : Complete limit second others)
    (noElse : NoElse others) :
    ∃ program other joined, Program.ofSource limit first = .ok program ∧
      Program.ofSource limit second = .ok other ∧
      Program.ofSource limit (first ++ " " ++ second) = .ok joined ∧
      JoinsMain program.main? other.main? joined.main? := by
  obtain ⟨program, parsed⟩ := complete.parses
  obtain ⟨other, parsedToo⟩ := completeToo.parses
  obtain ⟨joined, joinedParsed, joins⟩ := ofTokens_append parsed parsedToo complete.noProcedures
    completeToo.noProcedures complete.balanced completeToo.balanced noElse
  have scanned := Token.scan_append_blank complete.scanned completeToo.scanned
  exact ⟨program, other, joined, ofSource_eq complete.scanned parsed,
    ofSource_eq completeToo.scanned parsedToo, ofSource_eq scanned joinedParsed, joins⟩

/-- Within any number of laps the joined source does what its parts do in turn. -/
theorem runSource_append
    {first second : String} {program other joined : Program} {machine : Machine}
    (parsed : Program.ofSource machine.limit first = .ok program)
    (parsedToo : Program.ofSource machine.limit second = .ok other)
    (joinedParsed : Program.ofSource machine.limit (first ++ " " ++ second) = .ok joined)
    (joins : JoinsMain program.main? other.main? joined.main?)
    (flushes : machine.sink.refusesFlush = false) (laps : Nat) :
    runSource laps (first ++ " " ++ second) machine =
      (do runSource laps first; runSource laps second) machine := by
  have firstEq := runSource_eq parsed flushes laps
  rw [runSource_eq joinedParsed flushes, executeMain_joined joins]
  have step := executeMain_steady laps program.main? machine
  cases run : executeMain laps program.main? machine with
  | error stop after => rw [bind_of_error run, bind_of_error (firstEq.trans run)]
  | ok value after =>
      rw [run] at step
      have sameLimit : after.limit = machine.limit := step.sameLimit
      rw [bind_of_ok run, bind_of_ok (firstEq.trans run)]
      exact (runSource_eq (sameLimit ▸ parsedToo) (step.sameFlush.trans flushes) laps).symm

/-- Sources that are complete by themselves, run in turn, end as the source that joins them: if the
first one fails, with its failure, and otherwise with the outcome of the second one. -/
theorem runEnds_append
    {first second : String} {tokens others : List Token} {machine : Machine}
    (complete : Complete machine.limit first tokens)
    (completeToo : Complete machine.limit second others) (noElse : NoElse others)
    (flushes : machine.sink.refusesFlush = false) :
    (∃ joined, Program.ofSource machine.limit (first ++ " " ++ second) = .ok joined) ∧
      ∀ outcome, RunEnds (first ++ " " ++ second) machine outcome ↔
        (∃ cause after, outcome = .error cause after ∧
          RunEnds first machine (.error cause after)) ∨
        ∃ middle, RunEnds first machine (.ok () middle) ∧ RunEnds second middle outcome := by
  obtain ⟨program, other, joined, parsed, parsedToo, joinedParsed, joins⟩ :=
    complete.joined completeToo noElse
  have inTurn := runSource_append parsed parsedToo joinedParsed joins flushes
  refine ⟨⟨joined, joinedParsed⟩, fun outcome => ⟨?_, ?_⟩⟩
  · rintro ⟨laps, run⟩
    rw [inTurn] at run
    cases firstRun : runSource laps first machine with
    | ok value middle =>
        rw [bind_of_ok firstRun] at run
        exact .inr ⟨middle, ⟨laps, firstRun⟩, ⟨laps, run⟩⟩
    | error stop after =>
        rw [bind_of_error firstRun] at run
        cases outcome <;> cases run
        exact .inl ⟨_, _, rfl, ⟨laps, firstRun⟩⟩
  · rintro (⟨cause, after, rfl, laps, run⟩ | ⟨middle, ⟨laps, firstRun⟩, ⟨others, secondRun⟩⟩)
    · exact ⟨laps, by rw [inTurn, bind_of_error run]; rfl⟩
    · -- Laps that are enough for both runs.
      have persists (source : String) {fewer more : Nat} (noMore : fewer ≤ more) :=
        runSource_persists noMore source
      have firstToo := ended_of_more (persists first) (Nat.le_max_left laps others) firstRun
      have secondToo := ended_of_more (persists second) (Nat.le_max_right laps others) secondRun
      exact ⟨max laps others, by rw [inTurn, bind_of_ok firstToo, secondToo]⟩

/-- The tokens of an `if` without an `else`. -/
def openIf : List Token :=
  [.identifier "if", .leftParen, .number 1, .rightParen, .identifier "write", .assign, .number 1,
    .semicolon]

/-- The tokens of a block. -/
def writingBlock : List Token :=
  [.leftBrace, .identifier "write", .assign, .number 2, .semicolon, .rightBrace]

/-- A block behind an `if` to which an `else` could still be added. -/
theorem runEnds_append_openIf :
    Complete 4 "if (1) write = 1;" openIf ∧ Complete 4 "\x7b write = 2; \x7d" writingBlock ∧
      NoElse writingBlock ∧
      RunEnds ("if (1) write = 1;" ++ " " ++ "\x7b write = 2; \x7d") ((havingWritten "").under 4)
        (.ok () ((havingWritten "12").under 4)) := by
  have parsed : Program.ofTokens 4 openIf = .ok _ := rfl
  have parsedToo : Program.ofTokens 4 writingBlock = .ok _ := rfl
  have complete : Complete 4 "if (1) write = 1;" openIf :=
    ⟨by decide +kernel, ⟨_, parsed⟩, by simp [openIf], rfl, rfl⟩
  have completeToo : Complete 4 "\x7b write = 2; \x7d" writingBlock :=
    ⟨by decide +kernel, ⟨_, parsedToo⟩, by simp [writingBlock], rfl, rfl⟩
  have noElse : NoElse writingBlock := by simp [NoElse, writingBlock]
  have accepted :
      execute 1 (.branch (.literal 1) (.assign (.plain "write") (.literal 1)) (.block []))
      { (havingWritten "").under 4 with depth := 1 } =
        .ok () { (havingWritten "1").under 4 with depth := 1 } := rfl
  have assigned : execute 1 (.block [.assign (.plain "write") (.literal 2)])
      { (havingWritten "1").under 4 with depth := 1 } =
        .ok () { (havingWritten "12").under 4 with depth := 1 } := rfl
  have firstRun : RunEnds "if (1) write = 1;" ((havingWritten "").under 4)
      (.ok () ((havingWritten "1").under 4)) := by
    refine ⟨1, (runSource_eq (ofSource_eq complete.scanned parsed) rfl 1).trans ?_⟩
    exact execute_singleton (by decide) accepted
  have secondRun : RunEnds "\x7b write = 2; \x7d" ((havingWritten "1").under 4)
      (.ok () ((havingWritten "12").under 4)) := by
    refine ⟨1, (runSource_eq (ofSource_eq completeToo.scanned parsedToo) rfl 1).trans ?_⟩
    exact execute_singleton (by decide) assigned
  have firstUnder : Complete ((havingWritten "").under 4).limit _ _ := complete
  have joined := (runEnds_append firstUnder completeToo noElse rfl).2
    (.ok () ((havingWritten "12").under 4))
  exact ⟨complete, completeToo, noElse, joined.2 (.inr ⟨_, firstRun, secondRun⟩)⟩

end Slate.Machine
