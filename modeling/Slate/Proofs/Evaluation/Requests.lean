import Slate.Proofs.Execution.Step

/-!
What evaluation asks of the input. The requests of an expression can be read off the expression:
its variables `read` and `get` from left to right, whatever operators stand around them. Evaluation
makes exactly these requests in this order, and its result is fixed by the store and the answers.
If evaluation fails, then a request was refused or a divisor was zero, and the requests made until
then are the first ones.
-/

set_option autoImplicit false

namespace Slate

/-- What can be asked of the input. -/
inductive Request
  | integer
  | character
deriving DecidableEq

def Request.answer : Request → EStateM Fault Input Word
  | .integer => Input.readInteger
  | .character => Input.readCharacter

/-- The request behind a variable that stands by itself. -/
def Request.ofName? (name : String) : Option Request :=
  if name = readName then some .integer
  else if name = getName then some .character
  else none

mutual

/-- The requests of an expression, from left to right. -/
def Expr.requests : Expr → List Request
  | .literal _ => []
  | .unary _ operand => operand.requests
  | .binary _ left right => left.requests ++ right.requests
  | .select condition accepted rejected =>
      condition.requests ++ (accepted.requests ++ rejected.requests)
  | .reference (.plain name) => (Request.ofName? name).toList
  | .reference (.indexed base index) => base.requests ++ index.requests

/-- The requests on the way to the slot of a reference. Its variable makes none. -/
def Ref.requests : Ref → List Request
  | .plain _ => []
  | .indexed base index => base.requests ++ index.requests

end

mutual

/-- The value of an expression by the store and by the answers to its requests. Every operand has
the answers to its own requests. -/
def Expr.valueBy (store : Store) : Expr → List Word → Except Fault Word
  | .literal value, _ => .ok value
  | .unary op operand, answers => do
      return op.apply (← operand.valueBy store answers)
  | .binary op left right, answers => do
      let leftValue ← left.valueBy store (answers.take left.requests.length)
      let rightValue ← right.valueBy store (answers.drop left.requests.length)
      op.apply leftValue rightValue
  | .select condition accepted rejected, answers => do
      let conditionValue ← condition.valueBy store (answers.take condition.requests.length)
      let further := answers.drop condition.requests.length
      let acceptedValue ← accepted.valueBy store (further.take accepted.requests.length)
      let rejectedValue ← rejected.valueBy store (further.drop accepted.requests.length)
      return conditionValue.select acceptedValue rejectedValue
  | .reference (.plain name), answers =>
      .ok (if (Request.ofName? name).isSome then answers.headD 0 else store.get name)
  | .reference (.indexed base index), answers => do
      let slot ← base.slotBy store (answers.take base.requests.length)
      let value ← index.valueBy store (answers.drop base.requests.length)
      return store.get (slotAt slot value)

def Ref.slotBy (store : Store) : Ref → List Word → Except Fault String
  | .plain name, _ => .ok name
  | .indexed base index, answers => do
      let slot ← base.slotBy store (answers.take base.requests.length)
      let value ← index.valueBy store (answers.drop base.requests.length)
      return slotAt slot value

end

namespace Input

theorem pull_eq_error
    {lines : List (Option (List Char))} {fault : Fault} {after : Input}
    (fails : pull lines = .error fault after) : fault = .device .notText := by
  fun_induction pull lines with
  | case1 => cases fails
  | case2 =>
      cases fails
      rfl
  | case3 _ inductionHypothesis => exact inductionHypothesis fails
  | case4 => cases fails

theorem fill_eq_error
    {input after : Input} {fault : Fault} (fails : fill input = .error fault after) :
    fault = .device .notText := by
  unfold fill at fails
  split at fails
  · exact pull_eq_error fails
  · cases fails

theorem readInteger_run {input middle : Input} (filled : fill input = .ok true middle) :
    readInteger input =
      match Numeral.toWord? (literal middle.buffer) with
      | some value =>
          .ok value { middle with
            buffer := afterLiteral (literal middle.buffer).length middle.buffer }
      | none => .error (.malformedInput (String.ofList middle.buffer)) middle := by
  unfold readInteger
  rw [bind_of_ok filled, if_pos rfl, get_bind]
  cases Numeral.toWord? (literal middle.buffer) <;> rfl

theorem readInteger_eq_error
    {input after : Input} {fault : Fault} (fails : readInteger input = .error fault after) :
    fault = .device .notText ∨ ∃ pending, fault = .malformedInput pending := by
  cases filled : fill input with
  | error cause stopped =>
      rw [readInteger, bind_of_error filled] at fails
      cases fails
      exact .inl (fill_eq_error filled)
  | ok more middle =>
      cases more with
      | false =>
          rw [readInteger, bind_of_ok filled] at fails
          cases fails
      | true =>
          rw [readInteger_run filled] at fails
          split at fails
          · cases fails
          · cases fails
            exact .inr ⟨_, rfl⟩

theorem readCharacter_eq_error
    {input after : Input} {fault : Fault} (fails : readCharacter input = .error fault after) :
    fault = .device .notText := by
  unfold readCharacter at fails
  cases filled : fill input with
  | error cause stopped =>
      rw [bind_of_error filled] at fails
      cases fails
      exact fill_eq_error filled
  | ok more middle =>
      rw [bind_of_ok filled] at fails
      obtain ⟨_ | ⟨first, rest⟩, lines⟩ := middle <;> cases more <;> cases fails

end Input

theorem Request.answer_eq_error
    {request : Request} {input after : Input} {fault : Fault}
    (fails : request.answer input = .error fault after) :
    fault = .device .notText ∨ ∃ pending, fault = .malformedInput pending := by
  cases request with
  | integer => exact Input.readInteger_eq_error fails
  | character => exact .inl (Input.readCharacter_eq_error fails)

/-- The requests are answered one after the other, which leads from one input to another. -/
inductive Answered : Input → List Request → List Word → Input → Prop
  | nil (input : Input) : Answered input [] [] input
  | cons {request : Request} {requests : List Request} {answer : Word} {answers : List Word}
      {input middle after : Input} :
      request.answer input = .ok answer middle → Answered middle requests answers after →
        Answered input (request :: requests) (answer :: answers) after

namespace Answered

variable {input middle after : Input} {requests further : List Request}
  {answers more : List Word}

theorem append
    (first : Answered input requests answers middle) (second : Answered middle further more after) :
    Answered input (requests ++ further) (answers ++ more) after := by
  induction first with
  | nil => exact second
  | cons answered _ inductionHypothesis => exact .cons answered (inductionHypothesis second)

theorem length_eq (answered : Answered input requests answers after) :
    answers.length = requests.length := by
  induction answered with
  | nil => rfl
  | cons _ _ inductionHypothesis => exact congrArg Nat.succ inductionHypothesis

/-- Answers are the input's own, so there is only one way to answer. -/
theorem unique
    {others : List Word} {other : Input} (answered : Answered input requests answers after)
    (again : Answered input requests others other) : answers = others ∧ after = other := by
  induction answered generalizing others with
  | nil =>
      cases again
      exact ⟨rfl, rfl⟩
  | cons run _ inductionHypothesis =>
      cases again with
      | cons sameRun rest =>
          rw [run] at sameRun
          cases sameRun
          obtain ⟨rfl, rfl⟩ := inductionHypothesis rest
          exact ⟨rfl, rfl⟩

/-- The answers to the first requests. -/
theorem split
    (answered : Answered input (requests ++ further) answers after) :
    ∃ first second middle, answers = first ++ second ∧ Answered input requests first middle ∧
      Answered middle further second after := by
  induction requests generalizing input answers with
  | nil => exact ⟨[], answers, input, rfl, .nil input, answered⟩
  | cons request requests inductionHypothesis =>
      cases answered with
      | cons run rest =>
          obtain ⟨first, second, middle, rfl, firstAnswered, secondAnswered⟩ :=
            inductionHypothesis rest
          exact ⟨_ :: first, second, middle, rfl, .cons run firstAnswered, secondAnswered⟩

end Answered

/-- All requests are answered but the last, which fails. -/
def Refused (input : Input) (requests : List Request) (fault : Fault) (after : Input) : Prop :=
  ∃ earlier last answers middle, requests = earlier ++ [last] ∧
    Answered input earlier answers middle ∧ last.answer middle = .error fault after

theorem Refused.behind
    {input middle after : Input} {requests further : List Request} {answers : List Word}
    {fault : Fault} (answered : Answered input requests answers middle)
    (refused : Refused middle further fault after) :
    Refused input (requests ++ further) fault after := by
  obtain ⟨earlier, last, more, before, rfl, earlierAnswered, fails⟩ := refused
  exact ⟨requests ++ earlier, last, answers ++ more, before, (List.append_assoc _ _ _).symm,
    answered.append earlierAnswered, fails⟩

/-- Requests that are all answered are not refused on the way. -/
theorem Answered.not_refused
    {input after stopped : Input} {requests made left : List Request} {answers : List Word}
    {fault : Fault} (answered : Answered input requests answers after)
    (split : requests = made ++ left) : ¬ Refused input made fault stopped := by
  rintro ⟨earlier, last, others, middle, rfl, earlierAnswered, fails⟩
  subst split
  obtain ⟨_, _, _, _, firstAnswered, _⟩ := answered.split
  obtain ⟨_, _, _, _, again, lastAnswered⟩ := firstAnswered.split
  obtain ⟨_, rfl⟩ := again.unique earlierAnswered
  cases lastAnswered with
  | cons run _ =>
      rw [fails] at run
      cases run

section

variable {α β : Type}

/-- A step that makes these requests of the input and whose result is a function of the answers. If
it fails, a first part of the requests was made. The last of them was refused, or all were answered
and the answers rule out a result, by a divisor that is zero. -/
def Asks (requests : List Request) (value : List Word → Except Fault α)
    (step : EStateM Fault Input α) : Prop :=
  ∀ input, match step input with
    | .ok result after =>
        ∃ answers, Answered input requests answers after ∧ value answers = .ok result
    | .error fault after => ∃ made left, requests = made ++ left ∧
        (Refused input made fault after ∨
          fault = .divisionByZero ∧ ∃ answers, Answered input made answers after ∧
            ∀ further, further.length = left.length → value (answers ++ further) = .error fault)

namespace Asks

theorem pure (result : α) : Asks [] (fun _ => .ok result) (Pure.pure result) :=
  fun input => ⟨[], .nil input, rfl⟩

theorem request (request : Request) :
    Asks [request] (fun answers => .ok (answers.headD 0)) request.answer := by
  intro input
  cases run : request.answer input with
  | ok answer after => exact ⟨[answer], .cons run (.nil after), rfl⟩
  | error fault after =>
      exact ⟨[request], [], rfl, .inl ⟨[], request, [], input, rfl, .nil input, run⟩⟩

variable {requests more : List Request} {value : List Word → Except Fault α}
  {step : EStateM Fault Input α}

/-- A second step has the answers behind those of the first. -/
theorem bind
    {next : α → EStateM Fault Input β} {nextValue : α → List Word → Except Fault β}
    (asks : Asks requests value step)
    (nextAsks : ∀ result, Asks more (nextValue result) (next result)) :
    Asks (requests ++ more)
      (fun answers => do
        let result ← value (answers.take requests.length)
        nextValue result (answers.drop requests.length))
      (step >>= next) := by
  intro input
  have first := asks input
  cases run : step input with
  | error fault after =>
      rw [run] at first
      obtain ⟨made, left, rfl, stopped⟩ := first
      rw [bind_of_error run]
      refine ⟨made, left ++ more, List.append_assoc _ _ _, stopped.imp_right ?_⟩
      rintro ⟨isZero, answers, answered, ruledOut⟩
      refine ⟨isZero, answers, answered, fun further length => ?_⟩
      -- The first step has some of the further answers, and they do not help it.
      have share : (answers ++ further).take (made ++ left).length =
          answers ++ further.take left.length := by
        rw [List.length_append, ← answered.length_eq, List.take_length_add_append]
      rw [List.length_append] at length
      simp only [share, ruledOut (further.take left.length) (by simp; omega)]
      rfl
  | ok result middle =>
      rw [run] at first
      obtain ⟨answers, answered, given⟩ := first
      have second := nextAsks result middle
      have share (further : List Word) :
          (do
            let result ← value ((answers ++ further).take requests.length)
            nextValue result ((answers ++ further).drop requests.length)) =
          nextValue result further := by
        rw [← answered.length_eq, List.take_left', List.drop_left', given]
        · rfl
        · rfl
        · rfl
      rw [bind_of_ok run]
      cases nextRun : next result middle with
      | ok last after =>
          rw [nextRun] at second
          obtain ⟨further, furtherAnswered, lastGiven⟩ := second
          exact ⟨answers ++ further, answered.append furtherAnswered,
            (share further).trans lastGiven⟩
      | error fault after =>
          rw [nextRun] at second
          obtain ⟨made, left, rfl, stopped⟩ := second
          refine ⟨requests ++ made, left, (List.append_assoc _ _ _).symm,
            stopped.imp (Refused.behind answered) ?_⟩
          rintro ⟨isZero, others, othersAnswered, ruledOut⟩
          refine ⟨isZero, answers ++ others, answered.append othersAnswered, ?_⟩
          intro further length
          rw [List.append_assoc]
          exact (share _).trans (ruledOut further length)

/-- What is computed from the result makes no request. -/
theorem compute
    (asks : Asks requests value step) {compute : α → Except Fault β}
    (fails : ∀ result fault, compute result = .error fault → fault = .divisionByZero) :
    Asks requests (fun answers => value answers >>= compute)
      (do MonadExcept.ofExcept (compute (← step))) := by
  intro input
  have first := asks input
  cases run : step input with
  | error fault after =>
      rw [run] at first
      obtain ⟨made, left, split, stopped⟩ := first
      rw [bind_of_error run]
      refine ⟨made, left, split, stopped.imp_right ?_⟩
      rintro ⟨isZero, answers, answered, ruledOut⟩
      refine ⟨isZero, answers, answered, fun further length => ?_⟩
      simp only [ruledOut further length]
      rfl
  | ok result after =>
      rw [run] at first
      obtain ⟨answers, answered, given⟩ := first
      have whole : (value answers >>= compute) = compute result := by
        rw [given]
        rfl
      rw [bind_of_ok run]
      cases computed : compute result with
      | ok last => exact ⟨answers, answered, whole.trans computed⟩
      | error fault =>
          refine ⟨requests, [], (List.append_nil _).symm,
            .inr ⟨fails result fault computed, answers, answered, fun further length => ?_⟩⟩
          rw [List.eq_nil_of_length_eq_zero length, List.append_nil]
          exact whole.trans computed

theorem map (asks : Asks requests value step) (build : α → β) :
    Asks requests (fun answers => do return build (← value answers))
      (do return build (← step)) :=
  asks.compute fun _ _ fails => nomatch fails

/-- A step succeeds exactly if all its requests are answered and the answers give a result. -/
theorem run_eq_ok_iff
    (asks : Asks requests value step) {input after : Input} {result : α} :
    step input = .ok result after ↔
      ∃ answers, Answered input requests answers after ∧ value answers = .ok result := by
  have outcome := asks input
  constructor
  · intro run
    rw [run] at outcome
    exact outcome
  · rintro ⟨answers, answered, given⟩
    cases run : step input with
    | ok other stopped =>
        rw [run] at outcome
        obtain ⟨others, othersAnswered, otherGiven⟩ := outcome
        obtain ⟨rfl, rfl⟩ := answered.unique othersAnswered
        rw [given] at otherGiven
        cases otherGiven
        rfl
    | error fault stopped =>
        rw [run] at outcome
        obtain ⟨made, left, rfl, refused | ⟨_, others, othersAnswered, ruledOut⟩⟩ := outcome
        · exact absurd refused (answered.not_refused rfl)
        · obtain ⟨first, second, middle, rfl, firstAnswered, secondAnswered⟩ := answered.split
          obtain ⟨rfl, _⟩ := firstAnswered.unique othersAnswered
          rw [ruledOut second secondAnswered.length_eq] at given
          cases given

/-- A step fails by a divisor that is zero or for a reason of the input. -/
theorem fault_cases
    (asks : Asks requests value step) {input after : Input} {fault : Fault}
    (fails : step input = .error fault after) :
    fault = .divisionByZero ∨ fault = .device .notText ∨
      ∃ pending, fault = .malformedInput pending := by
  have outcome := asks input
  rw [fails] at outcome
  obtain ⟨_, _, _, ⟨_, _, _, _, _, _, refused⟩ | ⟨isZero, _⟩⟩ := outcome
  · exact .inr (Request.answer_eq_error refused)
  · exact .inl isZero

/-- The depth of statements has no part in what a step asks. -/
theorem ne_tooDeep
    (asks : Asks requests value step) {input after : Input} {fault : Fault}
    (fails : step input = .error fault after) (reached : Nat) : fault ≠ .tooDeep reached := by
  obtain rfl | rfl | ⟨pending, rfl⟩ := asks.fault_cases fails <;> nofun

/-- Nothing is put while a step asks. -/
theorem ne_invalidCharacter
    (asks : Asks requests value step) {input after : Input} {fault : Fault}
    (fails : step input = .error fault after) (word : Word) : fault ≠ .invalidCharacter word := by
  obtain rfl | rfl | ⟨pending, rfl⟩ := asks.fault_cases fails <;> nofun

end Asks

end

theorem BinaryOp.apply_eq_error
    {op : BinaryOp} {left right : Word} {fault : Fault}
    (fails : op.apply left right = .error fault) : fault = .divisionByZero := by
  cases op with
  | divide | modulo =>
      simp only [BinaryOp.apply] at fails
      split at fails
      · exact (Except.error.inj fails).symm
      · cases fails
  | _ => cases fails

theorem Expr.plain_asks (store : Store) (name : String) :
    Asks (Expr.reference (.plain name)).requests ((Expr.reference (.plain name)).valueBy store)
      ((Expr.reference (.plain name)).eval store) := by
  by_cases isRead : name = readName
  · subst isRead
    exact Asks.request .integer
  · by_cases isGet : name = getName
    · subst isGet
      exact Asks.request .character
    · have none : Request.ofName? name = none := by simp [Request.ofName?, isRead, isGet]
      simp only [requests, valueBy, eval, none, isRead, isGet]
      exact Asks.pure (store.get name)

mutual

theorem Expr.eval_asks (store : Store) :
    (expr : Expr) → Asks expr.requests (expr.valueBy store) (expr.eval store)
  | .literal value => .pure value
  | .unary op operand => (operand.eval_asks store).map op.apply
  | .binary _ left right =>
      (left.eval_asks store).bind fun _ =>
        (right.eval_asks store).compute fun _ _ fails => BinaryOp.apply_eq_error fails
  | .select condition accepted rejected =>
      (condition.eval_asks store).bind fun conditionValue =>
        (accepted.eval_asks store).bind fun acceptedValue =>
          (rejected.eval_asks store).map (conditionValue.select acceptedValue)
  | .reference (.plain name) => Expr.plain_asks store name
  | .reference (.indexed base index) =>
      (base.slot_asks store).bind fun slot =>
        (index.eval_asks store).map fun value => store.get (slotAt slot value)

theorem Ref.slot_asks (store : Store) :
    (ref : Ref) → Asks ref.requests (ref.slotBy store) (ref.slot store)
  | .plain name => .pure name
  | .indexed base index =>
      (base.slot_asks store).bind fun slot => (index.eval_asks store).map (slotAt slot)

end

namespace Machine

theorem sinking_input
    {step : EStateM Trouble Sink Unit} {machine after : Machine}
    (run : sinking step machine = .ok () after) : after.input = machine.input := by
  unfold sinking at run
  split at run
  · cases run
    rfl
  · cases run

theorem deliver_input
    {slot : String} {value : Word} {machine after : Machine}
    (run : deliver slot value machine = .ok () after) : after.input = machine.input := by
  rcases deliver_cases slot value with ⟨bytes, written⟩ | refused | stored
  · rw [written] at run
    exact sinking_input run
  · rw [refused] at run
    cases run
  · rw [stored] at run
    cases run
    rfl

/-- Evaluation makes exactly the requests of the expression, in order. It succeeds if all of them
are answered and the value by the store and the answers exists, and then nothing but the input has
changed. If it fails, it made the first of the requests, and all were answered but possibly the
last. An assignment makes the requests of its target first and then those of its value. -/
theorem evaluate_makes_requests (machine : Machine) (expr : Expr) :
    (∀ value after, evaluate expr machine = .ok value after ↔
      ∃ answers input, Answered machine.input expr.requests answers input ∧
        expr.valueBy machine.store answers = .ok value ∧ after = { machine with input }) ∧
    (∀ stop after, evaluate expr machine = .error stop after →
      ∃ fault made left, stop = .failure (.runtime fault) ∧ expr.requests = made ++ left ∧
        (Refused machine.input made fault after.input ∨
          fault = .divisionByZero ∧ ∃ answers, Answered machine.input made answers after.input)) ∧
    (∀ laps target after, execute laps (.assign target expr) machine = .ok () after →
      ∃ targetAnswers answers middle,
        Answered machine.input target.requests targetAnswers middle ∧
          Answered middle expr.requests answers after.input) := by
  have asks := expr.eval_asks machine.store
  refine ⟨fun value after => ?_, fun stop after fails => ?_, fun laps target after run => ?_⟩
  · rw [evaluate, reading_eq_ok_iff]
    simp only [asks.run_eq_ok_iff]
    constructor
    · rintro ⟨input, ⟨answers, answered, given⟩, same⟩
      exact ⟨answers, input, answered, given, same⟩
    · rintro ⟨answers, input, answered, given, same⟩
      exact ⟨input, ⟨answers, answered, given⟩, same⟩
  · obtain ⟨fault, input, evalFails, rfl, rfl⟩ := reading_eq_error_iff.1 fails
    have outcome := asks machine.input
    rw [evalFails] at outcome
    obtain ⟨made, left, split, stopped⟩ := outcome
    refine ⟨fault, made, left, rfl, split, stopped.imp_right ?_⟩
    rintro ⟨isZero, answers, answered, _⟩
    exact ⟨isZero, answers, answered⟩
  · obtain ⟨inside, assigned, rfl⟩ := nested_eq_ok run
    obtain ⟨slot, first, slotRun, rest⟩ := bind_eq_ok_iff.1 assigned
    obtain ⟨value, second, valueRun, delivered⟩ := bind_eq_ok_iff.1 rest
    obtain ⟨middle, slotAsked, rfl⟩ := reading_eq_ok_iff.1 slotRun
    obtain ⟨last, valueAsked, rfl⟩ := reading_eq_ok_iff.1 valueRun
    obtain ⟨targetAnswers, targetAnswered, _⟩ := (target.slot_asks _).run_eq_ok_iff.1 slotAsked
    obtain ⟨answers, answered, _⟩ := asks.run_eq_ok_iff.1 valueAsked
    have sameInput := deliver_input delivered
    exact ⟨targetAnswers, answers, middle, targetAnswered, sameInput ▸ answered⟩

/-- Both branches of a choice take a number, whichever is chosen. A number that is not there is the
last request made. The index of a target takes its character before the value does. -/
theorem evaluate_makes_requests_in_order :
    evaluate
        (.select (.literal 0) (.reference (.plain "read")) (.reference (.plain "read")))
        (start 1 ⟨['1', ' ', '2'], []⟩ .unlimited) =
      .ok 2 (start 1 ⟨[], []⟩ .unlimited) ∧
    (∃ made left, [Request.character, .integer, .character] = made ++ left ∧
      Refused ⟨['x', 'y'], []⟩ made (.malformedInput "y") ⟨['y'], []⟩) ∧
    ∃ targetAnswers answers middle,
      Answered ⟨['x', 'y'], []⟩ [.character] targetAnswers middle ∧
        Answered middle [.character] answers ⟨[], []⟩ := by
  refine ⟨?_, ?_, ?_⟩
  · have first : Input.readInteger ⟨['1', ' ', '2'], []⟩ = .ok 1 ⟨['2'], []⟩ := rfl
    have second : Input.readInteger ⟨['2'], []⟩ = .ok 2 ⟨[], []⟩ := rfl
    exact ((evaluate_makes_requests _ _).1 _ _).2
      ⟨[1, 2], ⟨[], []⟩, .cons first (.cons second (.nil _)), rfl, rfl⟩
  · have fails :
        evaluate
            (.select (.reference (.plain "get")) (.reference (.plain "read"))
              (.reference (.plain "get")))
            (start 1 ⟨['x', 'y'], []⟩ .unlimited) =
          .error (.failure (.runtime (.malformedInput "y"))) (start 1 ⟨['y'], []⟩ .unlimited) :=
      rfl
    obtain ⟨_, made, left, ⟨⟩, split, refused | ⟨⟨⟩, _⟩⟩ :=
      (evaluate_makes_requests _ _).2.1 _ _ fails
    exact ⟨made, left, split, refused⟩
  · have run :
        execute 1
            (.assign (.indexed (.plain "a") (.reference (.plain "get")))
              (.reference (.plain "get")))
            (start 1 ⟨['x', 'y'], []⟩ .unlimited) =
          .ok () { start 1 ⟨[], []⟩ .unlimited with store := Store.empty.set "a.120" 121 } := rfl
    exact (evaluate_makes_requests _ _).2.2 _ _ _ run

end Machine

end Slate
