import Slate.Proofs.Execution.Frame

/-!
The effects of execution. All that a program does to the store and to the sink it does by
assignments, each of which stores a value or writes some bytes. The effects of a statement are
listed along its execution, in the order in which they come about, up to the point where it ends or
fails. At the end, the store and the sink are those of the start with these effects in turn. So
nothing is taken back where a statement fails.
-/

set_option autoImplicit false

namespace Slate

/-- What an assignment brings about. -/
inductive Effect
  | stored (slot : String) (value : Word)
  | wrote (bytes : ByteArray)

/-- The store after some effects, of which it keeps those that store a value. -/
def Store.after (store : Store) (effects : List Effect) : Store :=
  effects.foldl (fun store effect =>
    match effect with
    | .stored slot value => store.set slot value
    | .wrote _ => store) store

/-- The sink after some effects, of which it keeps those that write. -/
def Sink.after (sink : Sink) (effects : List Effect) : Sink :=
  effects.foldl (fun sink effect =>
    match effect with
    | .stored _ _ => sink
    | .wrote bytes => { sink with written := sink.written ++ bytes }) sink

/-- Of some bytes, those that the sink has room for. -/
def Sink.taken (sink : Sink) (bytes : ByteArray) : ByteArray :=
  match sink.capacity? with
  | some capacity => bytes.extract 0 (capacity - sink.written.size)
  | none => bytes

theorem Sink.write_taken (sink : Sink) (bytes : ByteArray) :
    (match write bytes sink with
      | .ok _ after => after
      | .error _ after => after) = sink.after [.wrote (sink.taken bytes)] := by
  obtain ⟨written, _ | capacity, refusesFlush⟩ := sink
  · simp [write, after, taken]
  · by_cases fits : bytes.size ≤ capacity - written.size
    · have all : bytes.extract 0 (capacity - written.size) = bytes := by
        rw [← Nat.max_eq_left fits]
        exact ByteArray.extract_zero_max_size
      simp [write, after, taken, fits, all]
    · simp [write, after, taken, fits]

namespace Machine

variable {α β : Type}

/-- Between the two machines the effects came about, and nothing else happened to the store and the
sink. -/
structure Undergoes (effects : List Effect) (before after : Machine) : Prop where
  store : after.store = before.store.after effects
  sink : after.sink = before.sink.after effects

namespace Undergoes

theorem refl (machine : Machine) : Undergoes [] machine machine :=
  ⟨rfl, rfl⟩

theorem trans
    {earlier later : List Effect} {before middle after : Machine}
    (first : Undergoes earlier before middle) (second : Undergoes later middle after) :
    Undergoes (earlier ++ later) before after := by
  constructor
  · rw [second.store, first.store]
    exact List.foldl_append.symm
  · rw [second.sink, first.sink]
    exact List.foldl_append.symm

end Undergoes

/-- The effects of an action, by the machine from which it starts. -/
abbrev Log := Machine → List Effect

def silent : Log :=
  fun _ => []

/-- The effects of two actions in sequence, of which the first has the given ones. If it fails, the
second has none. -/
def followed (first : Action α) (log : Log) (next : α → Log) : Log := fun machine =>
  log machine ++
    match first machine with
    | .ok value after => next value after
    | .error _ _ => []

/-- The effects of an action one level further in, unless the limit forbids it. -/
def deeper (log : Log) : Log := fun machine =>
  if machine.limit ≤ machine.depth then [] else log { machine with depth := machine.depth + 1 }

/-- A full sink takes only a part of the bytes, and a word that is no character has no effect. -/
def deliverEffects (slot : String) (value : Word) : Log := fun machine =>
  if slot = writeName then
    [.wrote (machine.sink.taken value.decimal.toUTF8)]
  else if slot = putName then
    match value.toChar? with
    | some character => [.wrote (machine.sink.taken (String.singleton character).toUTF8)]
    | none => []
  else
    [.stored slot value]

def assignEffects (target : Ref) (value : Expr) : Log :=
  followed (slotOf target) silent fun slot =>
    followed (evaluate value) silent fun word => deliverEffects slot word

def repeatEffects (condition : Action Bool) (body : Action Unit) (log : Log) : (laps : Nat) → Log
  | 0 => silent
  | laps + 1 => followed condition silent fun goesOn =>
      if goesOn then
        followed body log fun _ => repeatEffects condition body log laps
      else
        silent

mutual

/-- The effects of a statement, until it ends, fails or runs out of laps. -/
def effects (laps : Nat) : Stmt → Log
  | .block body => deeper (effectsAll laps body)
  | .assign target value => deeper (assignEffects target value)
  | .branch condition accepted rejected => deeper (followed (holds condition) silent fun chosen =>
      if chosen then effects laps accepted else effects laps rejected)
  | .loop condition body =>
      deeper (repeatEffects (holds condition) (execute laps body) (effects laps body) laps)

def effectsAll (laps : Nat) : List Stmt → Log
  | [] => silent
  | statement :: rest =>
      followed (execute laps statement) (effects laps statement) fun _ => effectsAll laps rest

end

/-- From whatever machine the action starts, it has these effects on the store and the sink. -/
def Causes (action : Action α) (log : Log) : Prop :=
  ∀ machine, Undergoes (log machine) machine (final (action machine))

namespace Causes

variable {action : Action α} {log : Log}

theorem pure (value : α) : Causes (Pure.pure value : Action α) silent :=
  Undergoes.refl

theorem stop (cause : Stop) : Causes (throw cause : Action α) silent :=
  Undergoes.refl

theorem bind
    {next : α → Action β} {nextLog : α → Log} (causes : Causes action log)
    (nextCauses : ∀ value, Causes (next value) (nextLog value)) :
    Causes (action >>= next) (followed action log nextLog) := by
  intro machine
  have step := causes machine
  unfold followed
  cases run : action machine with
  | ok value middle =>
      rw [run] at step
      rw [bind_of_ok run]
      exact step.trans (nextCauses value middle)
  | error stop middle =>
      rw [run] at step
      rw [bind_of_error run, List.append_nil]
      exact ⟨step.store, step.sink⟩

theorem reading (step : Store → EStateM Fault Input α) : Causes (Machine.reading step) silent := by
  intro machine
  unfold Machine.reading
  split
  · exact ⟨rfl, rfl⟩
  · exact ⟨rfl, rfl⟩

theorem holds (condition : Expr) : Causes (Machine.holds condition) silent := by
  intro machine
  have causes := (reading (condition.eval ·)).bind fun value : Word => pure value.isTrue
  have step := causes machine
  unfold followed at step
  split at step
  · exact step
  · exact step

theorem writing (bytes : ByteArray) :
    Causes (sinking (Sink.write bytes)) fun machine => [.wrote (machine.sink.taken bytes)] := by
  intro machine
  have taken := Sink.write_taken machine.sink bytes
  unfold sinking
  cases run : Sink.write bytes machine.sink with
  | ok value sink =>
      rw [run] at taken
      exact ⟨rfl, taken⟩
  | error trouble sink =>
      rw [run] at taken
      exact ⟨rfl, taken⟩

theorem deliver (slot : String) (value : Word) :
    Causes (Machine.deliver slot value) (deliverEffects slot value) := by
  intro machine
  unfold Machine.deliver deliverEffects
  split
  · exact writing _ machine
  · split
    · cases value.toChar? with
      | some character => exact writing _ machine
      | none => exact stop _ machine
    · exact ⟨rfl, rfl⟩

theorem assign (target : Ref) (value : Expr) :
    Causes (Machine.assign target value) (assignEffects target value) :=
  (reading _).bind fun slot => (reading _).bind fun word => deliver slot word

theorem nested (causes : Causes action log) : Causes (Machine.nested action) (deeper log) := by
  intro machine
  unfold deeper
  by_cases met : machine.limit ≤ machine.depth
  · rw [nested_of_met met, if_pos met]
    exact Undergoes.refl machine
  · have inside := causes { machine with depth := machine.depth + 1 }
    rw [if_neg met]
    cases run : action { machine with depth := machine.depth + 1 } with
    | ok value after =>
        rw [run] at inside
        rw [nested_of_ok met run]
        exact ⟨inside.store, inside.sink⟩
    | error stop after =>
        rw [run] at inside
        rw [nested_of_error met run]
        exact ⟨inside.store, inside.sink⟩

theorem repeatWhile
    {condition : Action Bool} {body : Action Unit} (conditionCauses : Causes condition silent)
    (bodyCauses : Causes body log) (laps : Nat) :
    Causes (Machine.repeatWhile condition body laps) (repeatEffects condition body log laps) := by
  induction laps with
  | zero => exact stop _
  | succ laps inductionHypothesis =>
      refine conditionCauses.bind fun goesOn => ?_
      cases goesOn with
      | false => exact pure ()
      | true => exact bodyCauses.bind fun _ => inductionHypothesis

end Causes

mutual

theorem execute_causes (laps : Nat) :
    (statement : Stmt) → Causes (execute laps statement) (effects laps statement)
  | .block body => (executeAll_causes laps body).nested
  | .assign target value => (Causes.assign target value).nested
  | .branch condition accepted rejected =>
      ((Causes.holds condition).bind fun chosen =>
        match chosen with
        | true => execute_causes laps accepted
        | false => execute_causes laps rejected).nested
  | .loop condition body =>
      ((Causes.holds condition).repeatWhile (execute_causes laps body) laps).nested

theorem executeAll_causes (laps : Nat) :
    (body : List Stmt) → Causes (executeAll laps body) (effectsAll laps body)
  | [] => Causes.pure ()
  | statement :: rest =>
      (execute_causes laps statement).bind fun _ => executeAll_causes laps rest

end

end Machine

end Slate
