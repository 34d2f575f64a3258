import Slate.Proofs.Calls.Symbolic
import Slate.Proofs.Grammar.Statement

/-!
Calls are resolved while the tokens are read, and this comes to the same as reading first and
resolving afterwards. The two parsers move in step: as long as every call has a meaning, they pass
the same tokens and what the one returns is the expansion of what the other returns; at the first
call without a meaning the one stops, and it is the first such call in what the other returns.
-/

set_option autoImplicit false

namespace Slate

open Grammar

variable {α β γ δ : Type}

/-- One outcome follows another that keeps calls by name. `view` relates the value of the other
outcome, the first call in it without a meaning and the value that it is expanded to. -/
def FollowsAt (view : β → Option String → α → Prop)
    (outcome : EStateM.Result ParseFailure Cursor α) :
    EStateM.Result ParseFailure Cursor β → Prop
  | .ok value after => ∃ missing result, view value missing result ∧
      match missing with
      | none => outcome = .ok result after
      | some name => ∃ stopped, outcome = .error (.undefinedProcedure name) stopped
  | .error _ _ => ∃ failure stopped, outcome = .error failure stopped

/-- The parser follows one that keeps calls by name, from every cursor. -/
def Follows (view : β → Option String → α → Prop) (parser : Parser α) (symbolic : Parser β) :
    Prop :=
  ∀ cursor, FollowsAt view (parser cursor) (symbolic cursor)

namespace Follows

variable {parser : Parser α} {symbolic : Parser β} {view : β → Option String → α → Prop}

theorem pure {result : α} {value : β} (viewed : view value none result) :
    Follows view (Pure.pure result) (Pure.pure value) :=
  fun _ => ⟨none, result, viewed, rfl⟩

theorem weaken
    {weaker : β → Option String → α → Prop} (follows : Follows view parser symbolic)
    (implies : ∀ value missing result, view value missing result → weaker value missing result) :
    Follows weaker parser symbolic := by
  intro cursor
  have step := follows cursor
  cases run : symbolic cursor with
  | ok value after =>
      rw [run] at step
      rcases step with ⟨missing, result, viewed, outcome⟩
      exact ⟨missing, result, implies _ _ _ viewed, outcome⟩
  | error failure after =>
      rw [run] at step
      exact step

/-- A first parser without calls is the same on both sides. -/
theorem step
    (first : Parser γ) {next : γ → Parser α} {symbolicNext : γ → Parser β}
    (nextFollows : ∀ value, Follows view (next value) (symbolicNext value)) :
    Follows view (first >>= next) (first >>= symbolicNext) := by
  intro cursor
  cases run : first cursor with
  | ok value after =>
      rw [bind_of_ok run, bind_of_ok run]
      exact nextFollows value after
  | error failure after =>
      rw [bind_of_error run, bind_of_error run]
      exact ⟨failure, after, rfl⟩

/-- A call without a meaning in the first parser comes before all those in the second. -/
theorem bind
    {next : α → Parser γ} {symbolicNext : β → Parser δ} {nextView : δ → Option String → γ → Prop}
    (follows : Follows view parser symbolic)
    (nextFollows : ∀ value missing result, view value missing result →
      Follows (fun last further returned => nextView last (missing.or further) returned)
        (next result) (symbolicNext value)) :
    Follows nextView (parser >>= next) (symbolic >>= symbolicNext) := by
  intro cursor
  have step := follows cursor
  cases run : symbolic cursor with
  | error failure after =>
      rw [run] at step
      rcases step with ⟨failure', stopped, fails⟩
      rw [bind_of_error run]
      exact ⟨failure', stopped, bind_of_error fails⟩
  | ok value after =>
      rw [run] at step
      rcases step with ⟨missing, result, viewed, outcome⟩
      have nextStep := nextFollows value missing result viewed after
      rw [bind_of_ok run]
      cases missing with
      | none =>
          rw [bind_of_ok outcome]
          simpa only [Option.none_or] using nextStep
      | some name =>
          rcases outcome with ⟨stopped, fails⟩
          rw [bind_of_error fails]
          cases nextRun : symbolicNext value after with
          | ok last final =>
              rw [nextRun] at nextStep
              rcases nextStep with ⟨further, returned, nextViewed, _⟩
              exact ⟨some name, returned, nextViewed, stopped, rfl⟩
          | error failure final => exact ⟨_, stopped, rfl⟩

theorem ifNext
    {other : Parser α} {symbolicOther : Parser β} (token : Token)
    (follows : Follows view parser symbolic) (otherFollows : Follows view other symbolicOther) :
    Follows view
      (do if (← peek) = some token then advance; parser else other)
      (do if (← peek) = some token then advance; symbolic else symbolicOther) := by
  intro cursor
  rw [peek_bind, peek_bind]
  split
  next => exact follows _
  next => exact otherFollows cursor

theorem nested (limit : Nat) (follows : Follows view parser symbolic) :
    Follows view (Grammar.nested limit parser) (Grammar.nested limit symbolic) := by
  intro cursor
  unfold Grammar.nested
  split
  next => exact ⟨_, cursor, rfl⟩
  next =>
    have step := follows ⟨cursor.rest, cursor.depth + 1⟩
    cases run : symbolic ⟨cursor.rest, cursor.depth + 1⟩ with
    | error failure after =>
        rw [run] at step
        rcases step with ⟨failure', stopped, fails⟩
        rw [fails]
        exact ⟨failure', _, rfl⟩
    | ok value after =>
        rw [run] at step
        rcases step with ⟨missing, result, viewed, outcome⟩
        refine ⟨missing, result, viewed, ?_⟩
        cases missing with
        | none => rw [outcome]
        | some name =>
            rcases outcome with ⟨stopped, fails⟩
            rw [fails]
            exact ⟨_, rfl⟩

end Follows

/-- The first of the names under which the program has nothing. -/
def Program.missing? (program : Program) (names : List String) : Option String :=
  names.find? fun name => (program.find? name).isNone

theorem Program.missing?_append (program : Program) (first second : List String) :
    program.missing? (first ++ second) =
      (program.missing? first).or (program.missing? second) :=
  List.find?_append

/-- The first call of a statement without a meaning, and the expansion of the statement. -/
def Expands (program : Program) (statement : RawStmt) (missing : Option String) (result : Stmt) :
    Prop :=
  missing = program.missing? statement.calls ∧ result = statement.expand program

section

variable (program : Program) (limit : Nat)

theorem call_follows (name : String) :
    Follows (Expands program) (call (.ofProgram program) name) (call .symbolic name) := by
  rw [call_run, call_run]
  refine Follows.step _ fun _ cursor => ?_
  refine ⟨program.missing? [name], (program.find? name).getD (.block []), ⟨rfl, rfl⟩, ?_⟩
  cases found : program.find? name with
  | none => simp [Program.missing?, Assembly.ofProgram, found]
  | some body => simp [Program.missing?, Assembly.ofProgram, found]

theorem assignment_follows :
    Follows (Expands program) (assignment limit (.ofProgram program))
      (assignment limit .symbolic) := by
  unfold assignment
  exact Follows.step _ fun _ => Follows.step _ fun _ => Follows.step _ fun _ =>
    Follows.pure ⟨rfl, rfl⟩

variable {program limit} {inner : Parser Stmt} {symbolicInner : Parser RawStmt}
  (innerFollows : Follows (Expands program) inner symbolicInner)

include innerFollows

theorem branch_follows :
    Follows (Expands program) (branch limit (.ofProgram program) inner)
      (branch limit .symbolic symbolicInner) := by
  unfold branch
  refine Follows.step _ fun condition => innerFollows.bind ?_
  rintro accepted _ _ ⟨rfl, rfl⟩
  refine Follows.ifNext _ (innerFollows.bind ?_) (Follows.pure ⟨?_, rfl⟩)
  · rintro rejected _ _ ⟨rfl, rfl⟩
    refine Follows.pure ⟨?_, rfl⟩
    rw [Option.or_none]
    exact (program.missing?_append _ _).symm
  · simp [RawStmt.calls, RawStmt.callsAll, Assembly.symbolic]

theorem loop_follows :
    Follows (Expands program) (loop limit (.ofProgram program) inner)
      (loop limit .symbolic symbolicInner) := by
  unfold loop
  refine Follows.step _ fun condition => innerFollows.bind ?_
  rintro body _ _ ⟨rfl, rfl⟩
  exact Follows.pure ⟨Option.or_none, rfl⟩

/-- The statements read so far are the same on both sides, up to expansion. -/
theorem statements_follows (fuel : Nat) (done : List RawStmt) (results : List Stmt) :
    Follows
      (fun values missing returned => ∃ further, values = done.reverse ++ further ∧
        missing = program.missing? (RawStmt.callsAll further) ∧
          returned = results.reverse ++ RawStmt.expandAll program further)
      (statements inner fuel results) (statements symbolicInner fuel done) := by
  induction fuel generalizing done results with
  | zero => exact Follows.pure ⟨[], by simp, rfl, by simp [RawStmt.expandAll]⟩
  | succ fuel inductionHypothesis =>
      intro cursor
      rw [statements_run, statements_run]
      split
      next => exact ⟨none, _, ⟨[], by simp, rfl, by simp [RawStmt.expandAll]⟩, rfl⟩
      next => exact ⟨none, _, ⟨[], by simp, rfl, by simp [RawStmt.expandAll]⟩, rfl⟩
      next =>
        refine innerFollows.bind ?_ cursor
        rintro statement _ _ ⟨rfl, rfl⟩
        refine (inductionHypothesis (statement :: done)
          (statement.expand program :: results)).weaken ?_
        rintro values _ returned ⟨further, rfl, rfl, rfl⟩
        exact ⟨statement :: further, by simp, (program.missing?_append _ _).symm,
          by simp [RawStmt.expandAll]⟩

theorem block_follows :
    Follows (Expands program) (block (.ofProgram program) inner)
      (block .symbolic symbolicInner) := by
  unfold block
  refine Follows.step _ fun cursor => (statements_follows innerFollows _ [] []).bind ?_
  rintro _ _ _ ⟨body, rfl, rfl, rfl⟩
  exact Follows.pure ⟨Option.or_none, rfl⟩

theorem statementHere_follows :
    Follows (Expands program) (statementHere limit (.ofProgram program) inner)
      (statementHere limit .symbolic symbolicInner) := by
  intro cursor
  rw [statementHere_run, statementHere_run]
  split
  next name rest _ => exact call_follows program name _
  next => exact block_follows innerFollows _
  next =>
    split
    next => exact branch_follows innerFollows _
    next =>
      split
      next => exact loop_follows innerFollows _
      next => exact assignment_follows program limit cursor
  next =>
    rw [unexpected_run, unexpected_run]
    exact ⟨_, cursor, rfl⟩

end

theorem statement_follows (program : Program) (limit : Nat) :
    Follows (Expands program) (statement limit (.ofProgram program))
      (statement limit .symbolic) := by
  have withinFollows (levels : Nat) : Follows (Expands program)
      (statementWithin limit (.ofProgram program) levels)
      (statementWithin limit .symbolic levels) := by
    induction levels with
    | zero => exact fun cursor => ⟨_, cursor, rfl⟩
    | succ levels inductionHypothesis =>
        exact (statementHere_follows inductionHypothesis).nested limit
  exact Follows.step _ fun cursor => withinFollows _

theorem item_follows (program : Program) (limit : Nat) :
    Follows
      (fun raw missing defined => missing = program.missing? raw.2.calls ∧
        defined = (raw.1, raw.2.expand program))
      (item limit (.ofProgram program)) (item limit .symbolic) := by
  intro cursor
  rw [item_run, item_run]
  split
  next =>
    refine (statement_follows program limit).bind ?_ _
    rintro body _ _ ⟨rfl, rfl⟩
    exact Follows.pure ⟨Option.or_none, rfl⟩
  next =>
    refine (block_follows (statement_follows program limit)).bind ?_ cursor
    rintro body _ _ ⟨rfl, rfl⟩
    exact Follows.pure ⟨Option.or_none, rfl⟩

/-- The first call without a meaning in the items, which are entered into the program in order. -/
def RawProgram.missing? : Program → RawProgram → Option String
  | _, [] => none
  | program, item :: rest =>
      (program.missing? item.2.calls).or (missing? (RawProgram.enter program item) rest)

theorem items_follows (limit fuel : Nat) (program : Program) (done : RawProgram) :
    Follows
      (fun raw missing result => ∃ further, raw = done ++ further ∧
        missing = RawProgram.missing? program further ∧
          result = further.foldl RawProgram.enter program)
      (items limit .ofProgram Program.define fuel program)
      (items limit (fun _ => .symbolic) (fun items name body => items ++ [(name, body)]) fuel
        done) := by
  induction fuel generalizing program done with
  | zero => exact Follows.pure ⟨[], by simp, rfl, rfl⟩
  | succ fuel inductionHypothesis =>
      intro cursor
      rw [items_run, items_run]
      split
      next => exact ⟨none, program, ⟨[], by simp, rfl, rfl⟩, rfl⟩
      next =>
        refine (item_follows program limit).bind ?_ cursor
        rintro item _ _ ⟨rfl, rfl⟩
        refine (inductionHypothesis (RawProgram.enter program item) (done ++ [item])).weaken ?_
        rintro raw _ result ⟨further, rfl, rfl, rfl⟩
        exact ⟨item :: further, by simp, rfl, rfl⟩

/-- The program has something under exactly these names. -/
def Program.Declares (program : Program) (names : List String) : Prop :=
  ∀ name, (program.find? name).isSome ↔ name ∈ names

theorem Program.declares_empty : Program.empty.Declares [] := by
  intro name
  simp

namespace RawProgram

variable {program : Program} {before : RawProgram}

theorem declares_enter
    (declares : program.Declares (names before)) (item : String × RawStmt) :
    (enter program item).Declares (names (before ++ [item])) := by
  intro name
  have known := declares name
  rw [enter, Program.find?_define]
  by_cases same : item.1 = name
  · simp [names, same]
  · simpa [names, same, Ne.symm same] using known

theorem missing?_calls_eq_none
    (declares : program.Declares (names before)) {calls : List String}
    (absent : program.missing? calls = none) :
    ∀ called ∈ calls, called ∈ names before := by
  intro called member
  have found := List.find?_eq_none.1 absent called member
  rw [← declares called]
  simpa [Option.isSome_iff_ne_none] using found

theorem missing?_calls_eq_some
    (declares : program.Declares (names before)) {calls : List String} {called : String}
    (first : program.missing? calls = some called) :
    ∃ earlier later, calls = earlier ++ called :: later ∧
      (∀ other ∈ earlier, other ∈ names before) ∧ called ∉ names before := by
  obtain ⟨absent, earlier, later, split, present⟩ := List.find?_eq_some_iff_append.1 first
  refine ⟨earlier, later, split, ?_, ?_⟩
  · intro other member
    rw [← declares other]
    simpa using present other member
  · rw [← declares called]
    simpa using absent

theorem callsResolved_nil : CallsResolved [] := by
  intro before name body after split
  simp at split

theorem CallsResolved.concat
    (resolved : CallsResolved before) {item : String × RawStmt}
    (known : ∀ called ∈ item.2.calls, called ∈ names before) :
    CallsResolved (before ++ [item]) := by
  intro earlier name body after split
  rcases List.eq_nil_or_concat after with rfl | ⟨middle, last, rfl⟩
  · obtain ⟨rfl, same⟩ := List.append_inj' split rfl
    obtain rfl := List.singleton_inj.1 same
    exact known
  · rw [List.concat_eq_append, ← List.cons_append, ← List.append_assoc] at split
    obtain ⟨rfl, _⟩ := List.append_inj' split rfl
    exact resolved earlier name body middle rfl

theorem FirstUnresolved.not_callsResolved
    {items : RawProgram} {called : String} (first : FirstUnresolved items called) :
    ¬ CallsResolved items := by
  obtain ⟨before, name, body, after, earlier, later, split, calls, _, _, unknown⟩ := first
  intro resolved
  apply unknown
  apply resolved before name body after split
  rw [calls]
  exact List.mem_append_right _ List.mem_cons_self

/-- What is missing when the items are entered after those `before`, by the calls alone. -/
theorem missing?_spec
    (declares : program.Declares (names before)) (resolved : CallsResolved before)
    (items : RawProgram) :
    match missing? program items with
    | none => CallsResolved (before ++ items)
    | some called => FirstUnresolved (before ++ items) called := by
  induction items generalizing program before with
  | nil => simpa [missing?] using resolved
  | cons item rest inductionHypothesis =>
      rw [missing?]
      -- A call to the item itself is missing here as well: the item is entered after its body.
      cases here : program.missing? item.2.calls with
      | none =>
          have known := missing?_calls_eq_none declares here
          have further := inductionHypothesis (declares_enter declares item)
            (resolved.concat known)
          simpa using further
      | some called =>
          obtain ⟨earlier, later, calls, present, unknown⟩ := missing?_calls_eq_some declares here
          exact ⟨before, item.1, item.2, rest, earlier, later, rfl, calls, resolved, present,
            unknown⟩

end RawProgram

/-- Reading with calls resolved on the way, by the outcome of reading with calls kept. -/
theorem Program.ofTokens_eq
    {limit : Nat} {tokens : List Token} {items : RawProgram}
    (run : RawProgram.ofTokens limit tokens = .ok items) :
    Program.ofTokens limit tokens =
      match RawProgram.missing? .empty items with
      | none => .ok items.table
      | some called => .error (.undefinedProcedure called) := by
  have step := items_follows limit tokens.length .empty [] ⟨tokens, 0⟩
  unfold RawProgram.ofTokens at run
  unfold Program.ofTokens
  split at run
  next raw after kept =>
    obtain rfl := Except.ok.inj run
    rw [kept] at step
    obtain ⟨_, _, ⟨further, rfl, rfl, rfl⟩, outcome⟩ := step
    split at outcome
    next =>
      rw [outcome]
      rfl
    next =>
      obtain ⟨stopped, fails⟩ := outcome
      rw [fails]
  next => cases run

theorem RawProgram.ofTokens_of_ok
    {limit : Nat} {tokens : List Token} {program : Program}
    (run : Program.ofTokens limit tokens = .ok program) :
    ∃ items, RawProgram.ofTokens limit tokens = .ok items := by
  have step := items_follows limit tokens.length .empty [] ⟨tokens, 0⟩
  unfold RawProgram.ofTokens
  split
  next items after kept => exact ⟨items, rfl⟩
  next failure stopped kept =>
    rw [kept] at step
    obtain ⟨other, after, fails⟩ := step
    rw [Program.ofTokens, fails] at run
    cases run

/-- Tokens make a program exactly if they make items in which every call names an earlier item, and
the program is then the table of the items. Where some call does not, the first one is reported. -/
theorem Program.ofTokens_resolves_calls (limit : Nat) (tokens : List Token) :
    (∀ program, Program.ofTokens limit tokens = .ok program ↔
      ∃ items, RawProgram.ofTokens limit tokens = .ok items ∧ items.CallsResolved ∧
        program = items.table) ∧
    (∀ items, RawProgram.ofTokens limit tokens = .ok items → ¬ items.CallsResolved →
      ∃ called, items.FirstUnresolved called ∧
        Program.ofTokens limit tokens = .error (.undefinedProcedure called)) := by
  have resolution (items : RawProgram) :=
    RawProgram.missing?_spec Program.declares_empty RawProgram.callsResolved_nil items
  constructor
  · intro program
    constructor
    · intro run
      obtain ⟨items, kept⟩ := RawProgram.ofTokens_of_ok run
      have spec := resolution items
      rw [Program.ofTokens_eq kept] at run
      split at run
      next absent =>
        rw [absent] at spec
        exact ⟨items, kept, spec, (Except.ok.inj run).symm⟩
      next => cases run
    · rintro ⟨items, kept, resolved, rfl⟩
      have spec := resolution items
      rw [Program.ofTokens_eq kept]
      split
      next => rfl
      next called first =>
        rw [first] at spec
        exact absurd resolved spec.not_callsResolved
  · intro items kept unresolved
    have spec := resolution items
    rw [Program.ofTokens_eq kept]
    split
    next absent =>
      rw [absent] at spec
      exact absurd spec unresolved
    next called first =>
      rw [first] at spec
      exact ⟨called, spec, rfl⟩

/-- A call means what its name stands for at this point: a later definition of `A` does not change
what `B` does. -/
theorem Program.ofTokens_resolves_calls_redefined :
    ∃ program,
      Program.ofTokens 4 [.procedure "A", .colon, .identifier "x", .increment, .semicolon,
        .procedure "B", .colon, .procedure "A", .semicolon,
        .procedure "A", .colon, .identifier "x", .decrement, .semicolon] = .ok program ∧
      program.find? "B" = some (.assign (.plain "x")
        (.binary .add (.reference (.plain "x")) (.literal 1))) := by
  let target : Ref := .plain "x"
  let step (op : BinaryOp) : RawStmt :=
    .assign target (.binary op (.reference target) (.literal 1))
  let items : RawProgram := [("A", step .add), ("B", .call "A"), ("A", step .subtract)]
  have resolved : items.CallsResolved :=
    ((RawProgram.callsResolved_nil.concat (by simp [step, RawStmt.calls])).concat
      (by simp [RawStmt.calls, RawProgram.names])).concat (by simp [step, RawStmt.calls])
  refine ⟨items.table, ((Program.ofTokens_resolves_calls _ _).1 _).2
    ⟨items, rfl, resolved, rfl⟩, ?_⟩
  simp [items, RawProgram.table, RawProgram.enter, Program.find?_define, RawStmt.expand, step,
    target]

end Slate
