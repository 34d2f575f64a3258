import Slate.Proofs.Execution.Joining
import Slate.Proofs.Execution.Session
import Slate.Proofs.Grammar.Targets

/-!
The footprint of execution in the store. A statement changes only slots that the targets of its
assignments name: the variable of a target and, for each of its indices, a point and the decimal
text of a word. It removes no slot, and it leaves alone what stands under `write` and `put`, since
assignments to these write to the sink.

The variables of a source are small letters and underscores. So sources that are run in turn on a
fresh machine leave a store whose slots have names of one form.
-/

set_option autoImplicit false

namespace Slate

namespace Store

/-- The value that a slot was set to, if it ever was. -/
def binding? (store : Store) (name : String) : Option Word :=
  store.slots[name]?

theorem binding?_set (store : Store) (name other : String) (value : Word) :
    (store.set name value).binding? other =
      if name = other then some value else store.binding? other := by
  simp [binding?, set, Std.TreeMap.getElem?_insert]

theorem contains_iff_binding? (store : Store) (name : String) :
    store.contains name = true ↔ store.binding? name ≠ none := by
  rw [contains, binding?, Std.TreeMap.contains_eq_isSome_getElem?, Option.isSome_iff_ne_none]

/-- A slot keeps what it holds unless one of the effects is on it. -/
theorem binding?_after
    {effects : List Effect} {name : String}
    (untouched : ∀ value, Effect.stored name value ∉ effects) (store : Store) :
    (store.after effects).binding? name = store.binding? name := by
  induction effects generalizing store with
  | nil => rfl
  | cons effect rest inductionHypothesis =>
      have restUntouched := fun value member => untouched value (List.mem_cons_of_mem effect member)
      cases effect with
      | wrote bytes => exact inductionHypothesis restUntouched store
      | stored slot value =>
          have otherSlot : slot ≠ name := by
            rintro rfl
            exact untouched value List.mem_cons_self
          have afterwards := inductionHypothesis restUntouched (store.set slot value)
          rw [binding?_set, if_neg otherSlot] at afterwards
          exact afterwards

theorem contains_after
    {store : Store} {name : String} (held : store.contains name = true) (effects : List Effect) :
    (store.after effects).contains name = true := by
  induction effects generalizing store with
  | nil => exact held
  | cons effect rest inductionHypothesis =>
      cases effect with
      | wrote bytes => exact inductionHypothesis held
      | stored slot value =>
          apply inductionHypothesis
          rw [contains_set, held, Bool.or_true]

end Store

namespace Ref

def indexCount : Ref → Nat
  | .plain _ => 0
  | .indexed base _ => base.indexCount + 1

/-- The slot is the variable of the reference and then, for each index, a point and the decimal text
of some word. -/
def Names (ref : Ref) (slot : String) : Prop :=
  ∃ indices : List Word, indices.length = ref.indexCount ∧
    slot.toList = ref.base.toList ++ indices.flatMap fun index => '.' :: index.decimal.toList

theorem names_of_slot
    {store : Store} :
    (ref : Ref) → ∀ {input after : Input} {slot : String},
      ref.slot store input = .ok slot after → ref.Names slot
  | .plain name, input, after, slot, run => by
      cases run
      exact ⟨[], rfl, (List.append_nil _).symm⟩
  | .indexed base index, input, after, slot, run => by
      rw [Ref.slot] at run
      obtain ⟨outer, middle, baseRun, indexRun⟩ := bind_eq_ok_iff.1 run
      obtain ⟨word, last, _, returned⟩ := bind_eq_ok_iff.1 indexRun
      cases returned
      obtain ⟨indices, count, shape⟩ := names_of_slot base baseRun
      refine ⟨indices ++ [word], by simp [count, indexCount], ?_⟩
      simp [slotAt, shape, Ref.base]

end Ref

namespace Machine

/-- All that is stored is stored in slots that are allowed. -/
def Confined (allowed : String → Prop) (log : Log) : Prop :=
  ∀ machine slot value, .stored slot value ∈ log machine → allowed slot

namespace Confined

variable {α : Type} {allowed : String → Prop} {log : Log}

theorem silent : Confined allowed Machine.silent :=
  fun _ _ _ => nofun

theorem weaken
    {wider : String → Prop} (confined : Confined allowed log)
    (wide : ∀ slot, allowed slot → wider slot) : Confined wider log :=
  fun machine slot value member => wide slot (confined machine slot value member)

theorem followed
    {first : Action α} {next : α → Log} (confined : Confined allowed log)
    (nextConfined : ∀ machine value after, first machine = .ok value after →
      Confined allowed (next value)) :
    Confined allowed (Machine.followed first log next) := by
  intro machine slot value member
  unfold Machine.followed at member
  rcases List.mem_append.1 member with inFirst | inNext
  · exact confined machine slot value inFirst
  · split at inNext
    next result after run => exact nextConfined machine result after run after slot value inNext
    next => cases inNext

theorem deeper (confined : Confined allowed log) : Confined allowed (Machine.deeper log) := by
  intro machine slot value member
  unfold Machine.deeper at member
  split at member
  next => cases member
  next => exact confined _ slot value member

theorem repeatEffects
    (confined : Confined allowed log) (condition : Action Bool) (body : Action Unit) (laps : Nat) :
    Confined allowed (Machine.repeatEffects condition body log laps) := by
  induction laps with
  | zero => exact silent
  | succ laps inductionHypothesis =>
      refine silent.followed fun _ goesOn _ _ => ?_
      cases goesOn with
      | false => exact silent
      | true => exact confined.followed fun _ _ _ _ => inductionHypothesis

end Confined

/-- Slots that assignments to the targets may set. -/
structure Storable (targets : List Ref) (slot : String) : Prop where
  named : ∃ target ∈ targets, target.Names slot
  notWrite : slot ≠ writeName
  notPut : slot ≠ putName

theorem Storable.more
    {targets wider : List Ref} (included : ∀ target ∈ targets, target ∈ wider) (slot : String)
    (storable : Storable targets slot) : Storable wider slot := by
  obtain ⟨target, member, names⟩ := storable.named
  exact ⟨⟨target, included target member, names⟩, storable.notWrite, storable.notPut⟩

theorem deliverEffects_confined (slot : String) (value : Word) :
    Confined (fun other => other = slot ∧ slot ≠ writeName ∧ slot ≠ putName)
      (deliverEffects slot value) := by
  intro machine other word member
  unfold deliverEffects at member
  split at member
  next => simp at member
  next notWrite =>
    split at member
    next => split at member <;> simp at member
    next notPut =>
      obtain ⟨rfl, _⟩ := Effect.stored.inj (List.mem_singleton.1 member)
      exact ⟨rfl, notWrite, notPut⟩

theorem assignEffects_confined (target : Ref) (value : Expr) :
    Confined (Storable [target]) (assignEffects target value) := by
  -- The slot is not any slot, but the one that the target comes to in a run.
  refine Confined.silent.followed fun machine slot after slotRun => ?_
  refine Confined.silent.followed fun _ word _ _ => ?_
  obtain ⟨_, run, _⟩ := reading_eq_ok_iff.1 slotRun
  refine (deliverEffects_confined slot word).weaken ?_
  rintro _ ⟨rfl, notWrite, notPut⟩
  exact ⟨⟨target, List.mem_singleton_self _, target.names_of_slot run⟩, notWrite, notPut⟩

mutual

theorem effects_confined (laps : Nat) :
    (statement : Stmt) → Confined (Storable statement.targets) (effects laps statement)
  | .block body => (effectsAll_confined laps body).deeper
  | .assign target value => (assignEffects_confined target value).deeper
  | .branch condition accepted rejected => by
      refine (Confined.silent.followed fun _ chosen _ _ => ?_).deeper
      cases chosen with
      | true =>
          exact (effects_confined laps accepted).weaken
            (Storable.more fun _ => List.mem_append_left _)
      | false =>
          exact (effects_confined laps rejected).weaken
            (Storable.more fun _ => List.mem_append_right _)
  | .loop condition body => ((effects_confined laps body).repeatEffects _ _ laps).deeper

theorem effectsAll_confined (laps : Nat) :
    (body : List Stmt) → Confined (Storable (Stmt.targetsAll body)) (effectsAll laps body)
  | [] => Confined.silent
  | statement :: rest => by
      have first := (effects_confined laps statement).weaken
        (Storable.more fun _ => List.mem_append_left (Stmt.targetsAll rest))
      have others := (effectsAll_confined laps rest).weaken
        (Storable.more fun _ => List.mem_append_right statement.targets)
      exact first.followed fun _ _ _ _ => others

end

/-- What an execution does to the store. It sets only slots that are storable for the targets of the
statement. -/
theorem Ends.stores
    {statement : Stmt} {machine : Machine} {outcome : EStateM.Result Failure Machine Unit}
    (ends : Ends statement machine outcome) :
    ∃ effects, (final outcome).store = machine.store.after effects ∧
      ∀ slot value, .stored slot value ∈ effects → Storable statement.targets slot := by
  obtain ⟨laps, run⟩ := ends
  have undergone := execute_causes laps statement machine
  rw [run, final_ended] at undergone
  exact ⟨_, undergone.store, effects_confined laps statement machine⟩

end Machine

/-- Digits, possibly behind a minus sign: `-?[0-9]+`. -/
inductive IsIndexText : List Char → Prop
  | natural {digits : List Char} (nonempty : digits ≠ [])
      (allDigits : ∀ character ∈ digits, '0' ≤ character ∧ character ≤ '9') : IsIndexText digits
  | negative {digits : List Char} (nonempty : digits ≠ [])
      (allDigits : ∀ character ∈ digits, '0' ≤ character ∧ character ≤ '9') :
      IsIndexText ('-' :: digits)

/-- A variable and then indices behind points: `[a-z_]+(\.-?[0-9]+)*`. -/
inductive IsSlotName : List Char → Prop
  | plain {name : String} : Token.IsVariableName name → IsSlotName name.toList
  | indexed {slot index : List Char} :
      IsSlotName slot → IsIndexText index → IsSlotName (slot ++ '.' :: index)

theorem isIndexText_decimal (word : Word) : IsIndexText word.decimal.toList := by
  have allDigits (size : Nat) :
      ∀ character ∈ Nat.toDigits 10 size, '0' ≤ character ∧ character ≤ '9' := by
    intro character member
    rw [← Token.isDigit_iff]
    exact Nat.isDigit_of_mem_toDigits (by decide) (by decide) member
  rw [Word.decimal, String.toList_ofList]
  cases word.toInt with
  | ofNat size => exact .natural Nat.toDigits_ne_nil (allDigits size)
  | negSucc size => exact .negative Nat.toDigits_ne_nil (allDigits (size + 1))

theorem IsSlotName.further {slot : List Char} (isSlotName : IsSlotName slot) (indices : List Word) :
    IsSlotName (slot ++ indices.flatMap fun index => '.' :: index.decimal.toList) := by
  induction indices generalizing slot with
  | nil =>
      rw [List.flatMap_nil, List.append_nil]
      exact isSlotName
  | cons index rest inductionHypothesis =>
      rw [List.flatMap_cons, ← List.append_assoc]
      exact inductionHypothesis (isSlotName.indexed (isIndexText_decimal index))

theorem Ref.Names.isSlotName
    {ref : Ref} {slot : String} (names : ref.Names slot)
    (spelled : Token.IsVariableName ref.base) : IsSlotName slot.toList := by
  obtain ⟨indices, _, shape⟩ := names
  rw [shape]
  exact (IsSlotName.plain spelled).further indices

namespace Machine

/-- Slots that sources may set. -/
structure SourceSlot (slot : String) : Prop where
  isSlotName : IsSlotName slot.toList
  notWrite : slot ≠ writeName
  notPut : slot ≠ putName

theorem Storable.sourceSlot
    {statement : Stmt} {slot : String} (storable : Storable statement.targets slot)
    (spelled : statement.TargetsSpelled) : SourceSlot slot := by
  obtain ⟨target, member, names⟩ := storable.named
  exact ⟨names.isSlotName (spelled target member), storable.notWrite, storable.notPut⟩

theorem sourceEffects_confined (laps : Nat) (source : String) :
    Confined SourceSlot (sourceEffects laps source) := by
  intro machine slot value member
  unfold sourceEffects at member
  split at member
  next program parsed =>
    cases isMain : program.main? with
    | none =>
        simp only [programEffects, isMain] at member
        cases member
    | some main =>
        simp only [programEffects, isMain] at member
        have spelled := Program.ofSource_targetsSpelled parsed _ _ isMain
        exact (effects_confined laps main machine slot value member).sourceSlot spelled
  next => cases member

/-- Every slot that was set is one that sources may set. -/
def AllSourceSlots (machine : Machine) : Prop :=
  ∀ slot, machine.store.contains slot = true → SourceSlot slot

theorem AllSourceSlots.step
    {source : String} {before after : Machine} {result : Except Failure Answer}
    (kept : before.AllSourceSlots) (takes : Takes (.runSource source) before result after) :
    after.AllSourceSlots := by
  obtain ⟨laps, undergone, _⟩ := takes.leaves
  have sameStore : after.store = before.store.after (sourceEffects laps source before) :=
    undergone.store
  intro slot held
  -- A slot that is set now was set by the source or before it.
  by_cases touched : ∃ value, Effect.stored slot value ∈ sourceEffects laps source before
  · obtain ⟨value, member⟩ := touched
    exact sourceEffects_confined laps source before slot value member
  · have sameBinding := Store.binding?_after (not_exists.1 touched) before.store
    apply kept
    rwa [sameStore, Store.contains_iff_binding?, sameBinding,
      ← Store.contains_iff_binding?] at held

/-- Nothing is asked for but to run sources. -/
def OnlySources (steps : List (Step × Except Failure Answer)) : Prop :=
  ∀ taken ∈ steps, ∃ source, taken.1 = .runSource source

theorem AllSourceSlots.session
    {first machine : Machine} {steps : List (Step × Except Failure Answer)}
    (session : Session first steps machine) (onlySources : OnlySources steps)
    (kept : first.AllSourceSlots) : machine.AllSourceSlots := by
  induction session with
  | nil => exact kept
  | cons takes _ inductionHypothesis =>
      obtain ⟨⟨source, rfl⟩, further⟩ := List.forall_mem_cons.1 onlySources
      exact inductionHypothesis further (kept.step takes)

theorem allSourceSlots_start (limit : Nat) (input : Input) (sink : Sink) :
    (start limit input sink).AllSourceSlots := by
  intro slot held
  simp [start, Store.contains, Store.empty] at held

/-- However an execution ends, it changes only slots that the targets of the statement name. No slot
is removed, and what stands under `write` and `put` stays as it was. So sources that are run in
turn on a fresh machine, whether or not they fail, set only slots that are named by a variable and
by decimal numbers behind points, and neither `write` nor `put`. -/
theorem execute_footprint :
    (∀ statement machine outcome, Ends statement machine outcome →
      (∀ slot, (final outcome).store.binding? slot ≠ machine.store.binding? slot →
        ∃ target ∈ statement.targets, target.Names slot) ∧
      (∀ slot, machine.store.contains slot = true → (final outcome).store.contains slot = true) ∧
      (final outcome).store.binding? writeName = machine.store.binding? writeName ∧
      (final outcome).store.binding? putName = machine.store.binding? putName) ∧
    ∀ limit input sink steps machine,
      Session (start limit input sink) steps machine → OnlySources steps →
        ∀ slot, machine.store.contains slot = true →
          IsSlotName slot.toList ∧ slot ≠ writeName ∧ slot ≠ putName := by
  constructor
  · intro statement machine outcome ends
    obtain ⟨effects, stored, storable⟩ := ends.stores
    rw [stored]
    refine ⟨fun slot changed => ?_, fun slot held => Store.contains_after held effects, ?_, ?_⟩
    · by_contra unnamed
      apply changed
      exact Store.binding?_after (fun value member => unnamed (storable slot value member).named) _
    · exact Store.binding?_after
        (fun value member => (storable writeName value member).notWrite rfl) _
    · exact Store.binding?_after
        (fun value member => (storable putName value member).notPut rfl) _
  · intro limit input sink steps machine session onlySources slot held
    have kept := (allSourceSlots_start limit input sink).session session onlySources
    have isSourceSlot := kept slot held
    exact ⟨isSourceSlot.isSlotName, isSourceSlot.notWrite, isSourceSlot.notPut⟩

/-- Sets a slot with two indices, one of them negative, and then divides by zero. -/
def settingIndexed : Stmt :=
  .block [.assign (.indexed (.indexed (.plain "x") (.literal (-3))) (.literal 4)) (.literal 7),
    .assign (.plain "y") (.binary .divide (.literal 1) (.literal 0))]

/-- A machine on which nothing was done but to set a slot. -/
def havingSet (slot : String) : Machine :=
  resuming (Store.empty.set slot 7) ⟨[], []⟩ .unlimited 4

/-- A statement that fails behind its first assignment, and a source whose slot has a negative
index. -/
theorem execute_footprint_settingIndexed :
    (Ends settingIndexed (start 4 ⟨[], []⟩ .unlimited)
        (.error (.runtime .divisionByZero) (havingSet "x.-3.4")) ∧
      ∃ target ∈ settingIndexed.targets, target.Names "x.-3.4") ∧
    Session (start 4 ⟨[], []⟩ .unlimited) [(.runSource "x@(0-3)=7;", .ok .done)]
        (havingSet "x.-3") ∧
      IsSlotName "x.-3".toList := by
  have isSet (slot : String) : (havingSet slot).store.binding? slot = some 7 := by
    rw [havingSet, resuming, Store.binding?_set, if_pos rfl]
  constructor
  · have named : slotAt (slotAt "x" (-3)) 4 = "x.-3.4" := by decide +kernel
    have stored :
        execute 1 (.assign (.indexed (.indexed (.plain "x") (.literal (-3))) (.literal 4))
          (.literal 7)) { start 4 ⟨[], []⟩ .unlimited with depth := 1 } =
            .ok () { havingSet "x.-3.4" with depth := 1 } := by
      rw [← named]
      rfl
    have divided : execute 1 (.assign (.plain "y") (.binary .divide (.literal 1) (.literal 0)))
        { havingSet "x.-3.4" with depth := 1 } =
          .error (.failure (.runtime .divisionByZero)) { havingSet "x.-3.4" with depth := 1 } := rfl
    have ends : Ends settingIndexed (start 4 ⟨[], []⟩ .unlimited)
        (.error (.runtime .divisionByZero) (havingSet "x.-3.4")) := by
      have inside : executeAll 1
          [.assign (.indexed (.indexed (.plain "x") (.literal (-3))) (.literal 4)) (.literal 7),
            .assign (.plain "y") (.binary .divide (.literal 1) (.literal 0))]
          { start 4 ⟨[], []⟩ .unlimited with depth := 1 } =
            .error (.failure (.runtime .divisionByZero))
              { havingSet "x.-3.4" with depth := 1 } := by
        rw [executeAll, bind_of_ok stored, executeAll, bind_of_error divided]
      exact ⟨1, nested_of_error (by decide) inside⟩
    refine ⟨ends, (execute_footprint.1 _ _ _ ends).1 _ ?_⟩
    rw [final, isSet]
    simp [start, Store.binding?, Store.empty]
  · have named : slotAt "x" (-3) = "x.-3" := by decide +kernel
    have scanned : Token.scan "x@(0-3)=7;" = .ok [.identifier "x", .at, .leftParen, .number 0,
        .minus, .number 3, .rightParen, .assign, .number 7, .semicolon] := by decide +kernel
    have parsed : Program.ofTokens 4 [.identifier "x", .at, .leftParen, .number 0, .minus,
        .number 3, .rightParen, .assign, .number 7, .semicolon] = .ok _ := rfl
    have stored :
        execute 1 (.assign (.indexed (.plain "x") (.binary .subtract (.literal 0) (.literal 3)))
          (.literal 7)) { start 4 ⟨[], []⟩ .unlimited with depth := 1 } =
            .ok () { havingSet "x.-3" with depth := 1 } := by
      rw [← named]
      rfl
    have run : runSource 1 "x@(0-3)=7;" (start 4 ⟨[], []⟩ .unlimited) =
        .ok () (havingSet "x.-3") := by
      rw [runSource_eq (ofSource_eq scanned parsed) rfl]
      exact execute_singleton (by decide) stored
    have taken : Takes (.runSource "x@(0-3)=7;") (start 4 ⟨[], []⟩ .unlimited) (.ok .done)
        (havingSet "x.-3") := ⟨1, bind_of_ok run⟩
    have session := Session.cons taken (.nil _)
    refine ⟨session, (execute_footprint.2 _ _ _ _ _ session ?_ "x.-3" ?_).1⟩
    · exact List.forall_mem_singleton.2 ⟨_, rfl⟩
    · rw [Store.contains_iff_binding?, isSet]
      simp

end Machine

end Slate
