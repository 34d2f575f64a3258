import Slate.Proofs.Evaluation.Requests
import Slate.Proofs.Execution.Footprint
import Slate.Proofs.Execution.Truncation

/-!
Assignments are atomic. The slot and the word of an assignment are settled first. That takes input
and changes nothing else, whether or not it succeeds. Then the word is delivered in one step, which
writes its decimal text, writes it as a character or binds the slot to it. A word that is no
character is refused before anything is written, so that only a full sink leaves a part behind.
-/

set_option autoImplicit false

namespace Slate

namespace Word

/-- The words that are code points and no surrogates. -/
def IsScalar (word : Word) : Prop :=
  0 ≤ word.toInt ∧ word.toInt ≤ 0xd7ff ∨ 0xe000 ≤ word.toInt ∧ word.toInt ≤ 0x10ffff

instance : DecidablePred IsScalar :=
  fun _ => inferInstanceAs (Decidable (_ ∨ _))

theorem isScalar_iff {word : Word} :
    word.IsScalar ↔ 0 ≤ word ∧ word.toInt.toNat.isValidChar := by
  have sign : 0 ≤ word ↔ 0 ≤ word.toInt := Int64.le_iff_toInt_le
  rw [IsScalar, sign, Nat.isValidChar]
  omega

theorem toChar?_eq_none_iff {word : Word} : word.toChar? = none ↔ ¬ word.IsScalar := by
  rw [isScalar_iff, toChar?]
  split
  next valid => exact iff_of_false nofun (not_not_intro valid)
  next invalid => exact iff_of_true rfl invalid

theorem toInt_of_toChar?
    {word : Word} {character : Char} (isCharacter : word.toChar? = some character) :
    word.toInt = character.toNat := by
  unfold toChar? at isCharacter
  split at isCharacter
  next valid =>
    cases isCharacter
    have sign : 0 ≤ word.toInt := Int64.le_iff_toInt_le.1 valid.1
    have isCode : (Char.ofNat word.toInt.toNat).toNat = word.toInt.toNat := by
      rw [Char.ofNat, dif_pos valid.2]
      rfl
    omega
  next => cases isCharacter

end Word

namespace Machine

variable {α β : Type}

/-- Between the two machines nothing happened but to the input. -/
def SameButInput (before after : Machine) : Prop :=
  after = { before with input := after.input }

theorem reading_sameButInput (step : Store → EStateM Fault Input α) (machine : Machine) :
    SameButInput machine (final (reading step machine)) := by
  unfold reading
  split
  · rfl
  · rfl

/-- The target comes to the slot and then the value to the word. -/
def Settles (target : Ref) (value : Expr) (machine : Machine) (slot : String) (word : Word)
    (settled : Machine) : Prop :=
  ∃ middle, slotOf target machine = .ok slot middle ∧ evaluate value middle = .ok word settled

theorem Settles.sameButInput
    {target : Ref} {value : Expr} {machine settled : Machine} {slot : String} {word : Word}
    (settles : Settles target value machine slot word settled) : SameButInput machine settled := by
  obtain ⟨middle, slotRun, valueRun⟩ := settles
  obtain ⟨_, _, rfl⟩ := reading_eq_ok_iff.1 slotRun
  obtain ⟨_, _, rfl⟩ := reading_eq_ok_iff.1 valueRun
  rfl

theorem Settles.assign_eq
    {target : Ref} {value : Expr} {machine settled : Machine} {slot : String} {word : Word}
    (settles : Settles target value machine slot word settled) :
    assign target value machine = deliver slot word settled := by
  obtain ⟨middle, slotRun, valueRun⟩ := settles
  rw [assign, bind_of_ok slotRun, bind_of_ok valueRun]

/-- Slot and word are settled, or the assignment fails on the way there with nothing changed but the
input. It is too early then to refuse a character. -/
theorem assign_cases (target : Ref) (value : Expr) (machine : Machine) :
    (∃ slot word settled, Settles target value machine slot word settled) ∨
      ∃ fault input, (∀ word, fault ≠ .invalidCharacter word) ∧
        assign target value machine =
          .error (.failure (.runtime fault)) { machine with input } := by
  cases slotRun : slotOf target machine with
  | error stop after =>
      obtain ⟨fault, input, fails, rfl, rfl⟩ := reading_eq_error_iff.1 slotRun
      exact .inr ⟨fault, input, (target.slot_asks _).ne_invalidCharacter fails,
        bind_of_error slotRun⟩
  | ok slot middle =>
      cases valueRun : evaluate value middle with
      | ok word settled => exact .inl ⟨slot, word, settled, middle, slotRun, valueRun⟩
      | error stop after =>
          obtain ⟨fault, input, fails, rfl, rfl⟩ := reading_eq_error_iff.1 valueRun
          obtain ⟨_, _, rfl⟩ := reading_eq_ok_iff.1 slotRun
          refine .inr ⟨fault, input, (value.eval_asks _).ne_invalidCharacter fails, ?_⟩
          rw [assign, bind_of_ok slotRun, bind_of_error valueRun]

/-- What an assignment of the word to the slot brings about. It may take input besides. -/
inductive Delivered (slot : String) (word : Word) (before after : Machine) : Prop
  | wrote (isWrite : slot = writeName)
      (appended : SameButInput (before.appending word.decimal.toUTF8) after)
  | put (character : Char) (isPut : slot = putName) (isCode : word.toInt = character.toNat)
      (appended : SameButInput (before.appending (String.singleton character).toUTF8) after)
  | bound (notWrite : slot ≠ writeName) (notPut : slot ≠ putName)
      (elsewhereSame : SameButInput { before with store := after.store } after)
      (binding : ∀ name, after.store.binding? name =
        if slot = name then some word else before.store.binding? name)

theorem Delivered.from_earlier
    {slot : String} {word : Word} {before settled after : Machine}
    (delivered : Delivered slot word settled after) (same : SameButInput before settled) :
    Delivered slot word before after := by
  unfold SameButInput at same
  rw [same] at delivered
  cases delivered with
  | wrote isWrite appended => exact .wrote isWrite appended
  | put character isPut isCode appended => exact .put character isPut isCode appended
  | bound notWrite notPut elsewhereSame binding =>
      exact .bound notWrite notPut elsewhereSame binding

theorem writing_outcome (bytes : ByteArray) (machine : Machine) :
    sinking (Sink.write bytes) machine = .ok () (machine.appending bytes) ∨
      machine.sink.capacity? ≠ none ∧ ∃ after, sinking (Sink.write bytes) machine =
        .error (.failure (.runtime (.device .sinkFull))) after := by
  rcases Sink.write_cases bytes machine.sink with taken | ⟨room, full⟩
  · left
    rw [sinking, taken]
    rfl
  · right
    constructor
    · intro unbounded
      simp [Sink.write, unbounded] at full
    · rw [sinking, full]
      exact ⟨_, rfl⟩

theorem deliver_of_not_isScalar {word : Word} (notScalar : ¬ word.IsScalar) (machine : Machine) :
    deliver putName word machine =
      .error (.failure (.runtime (.invalidCharacter word))) machine := by
  rw [deliver, if_neg (by decide), if_pos rfl, Word.toChar?_eq_none_iff.2 notScalar]
  rfl

/-- A word is delivered, or it is no character and refused, or the sink is full. -/
theorem deliver_outcome (slot : String) (word : Word) (machine : Machine) :
    (∃ after, deliver slot word machine = .ok () after ∧ Delivered slot word machine after) ∨
      slot = putName ∧ ¬ word.IsScalar ∨
      machine.sink.capacity? ≠ none ∧ ∃ after, deliver slot word machine =
        .error (.failure (.runtime (.device .sinkFull))) after := by
  by_cases isWrite : slot = writeName
  · rw [deliver, if_pos isWrite]
    rcases writing_outcome word.decimal.toUTF8 machine with taken | full
    · exact .inl ⟨_, taken, .wrote isWrite rfl⟩
    · exact .inr (.inr full)
  · by_cases isPut : slot = putName
    · rw [deliver, if_neg isWrite, if_pos isPut]
      cases isCharacter : word.toChar? with
      | none => exact .inr (.inl ⟨isPut, Word.toChar?_eq_none_iff.1 isCharacter⟩)
      | some character =>
          rcases writing_outcome (String.singleton character).toUTF8 machine with taken | full
          · have isCode := Word.toInt_of_toChar? isCharacter
            exact .inl ⟨_, taken, .put character isPut isCode rfl⟩
          · exact .inr (.inr full)
    · rw [deliver, if_neg isWrite, if_neg isPut]
      refine .inl ⟨_, rfl, .bound isWrite isPut rfl fun name => ?_⟩
      exact Store.binding?_set machine.store slot name word

/-- The ways in which an assignment ends. Only a full sink may leave a part of an output behind. -/
inductive Concludes (target : Ref) (value : Expr) (machine : Machine) :
    EStateM.Result Stop Machine Unit → Prop
  | delivered {slot : String} {word : Word} {settled after : Machine}
      (settles : Settles target value machine slot word settled)
      (delivered : Delivered slot word machine after) :
      Concludes target value machine (.ok () after)
  | refused {word : Word} {settled : Machine}
      (settles : Settles target value machine putName word settled)
      (notScalar : ¬ word.IsScalar) :
      Concludes target value machine
        (.error (.failure (.runtime (.invalidCharacter word))) settled)
  | unsettled {fault : Fault} (early : ∀ word, fault ≠ .invalidCharacter word) (input : Input) :
      Concludes target value machine (.error (.failure (.runtime fault)) { machine with input })
  | full (after : Machine) :
      Concludes target value machine (.error (.failure (.runtime (.device .sinkFull))) after)

theorem assign_concludes (target : Ref) (value : Expr) (machine : Machine) :
    Concludes target value machine (assign target value machine) := by
  rcases assign_cases target value machine with
    ⟨slot, word, settled, settles⟩ | ⟨fault, input, early, fails⟩
  · rw [settles.assign_eq]
    rcases deliver_outcome slot word settled with
      ⟨after, run, delivered⟩ | ⟨rfl, notScalar⟩ | ⟨_, after, fails⟩
    · rw [run]
      exact .delivered settles (delivered.from_earlier settles.sameButInput)
    · rw [deliver_of_not_isScalar notScalar]
      exact .refused settles notScalar
    · rw [fails]
      exact .full after
  · rw [fails]
    exact .unsettled early input

/-- The same outcome with the machine at another depth. -/
def atDepth (depth : Nat) : EStateM.Result Stop Machine α → EStateM.Result Stop Machine α
  | .ok value after => .ok value { after with depth }
  | .error stop after => .error stop { after with depth }

/-- At whatever depth the action starts, it does the same and stays there. -/
def IgnoresDepth (action : Action α) : Prop :=
  ∀ machine depth, action { machine with depth } = atDepth depth (action machine)

namespace IgnoresDepth

theorem bind
    {first : Action α} {next : α → Action β} (ignores : IgnoresDepth first)
    (nextIgnores : ∀ value, IgnoresDepth (next value)) : IgnoresDepth (first >>= next) := by
  intro machine depth
  have step := ignores machine depth
  cases run : first machine with
  | ok value after =>
      rw [run] at step
      rw [bind_of_ok step, bind_of_ok run]
      exact nextIgnores value after depth
  | error stop after =>
      rw [run] at step
      rw [bind_of_error step, bind_of_error run]
      rfl

theorem reading (step : Store → EStateM Fault Input α) : IgnoresDepth (Machine.reading step) := by
  intro machine depth
  unfold Machine.reading
  cases step machine.store machine.input with
  | ok value input => rfl
  | error fault input => rfl

theorem writing (bytes : ByteArray) : IgnoresDepth (sinking (Sink.write bytes)) := by
  intro machine depth
  unfold sinking
  cases Sink.write bytes machine.sink with
  | ok value sink => rfl
  | error trouble sink => rfl

theorem deliver (slot : String) (value : Word) : IgnoresDepth (Machine.deliver slot value) := by
  rcases deliver_cases slot value with ⟨bytes, written⟩ | refused | stored
  · rw [written]
    exact writing bytes
  · rw [refused]
    exact fun _ _ => rfl
  · rw [stored]
    exact fun _ _ => rfl

theorem assign (target : Ref) (value : Expr) : IgnoresDepth (Machine.assign target value) :=
  (reading _).bind fun slot => (reading _).bind fun word => deliver slot word

/-- Going one level further in makes no difference but at the limit. -/
theorem nested_eq {action : Action α} (ignores : IgnoresDepth action) (machine : Machine) :
    nested action machine =
      if machine.limit ≤ machine.depth then
        .error (.failure (.runtime (.tooDeep machine.limit))) machine
      else
        action machine := by
  by_cases met : machine.limit ≤ machine.depth
  · rw [nested_of_met met, if_pos met]
  · have stays := ignores machine machine.depth
    have inside := ignores machine (machine.depth + 1)
    rw [if_neg met]
    cases run : action machine with
    | ok value after =>
        rw [run] at stays inside
        rw [nested_of_ok met inside]
        exact stays.symm
    | error stop after =>
        rw [run] at stays inside
        rw [nested_of_error met inside]
        exact stays.symm

end IgnoresDepth

/-- Evaluating an expression and settling the slot of a reference change nothing but the input,
whether or not they succeed. An assignment that fails changes nothing but the input either, unless
the sink was full. One that succeeds writes the decimal text of the word, writes the word as a
character or binds the slot and no other. A character is refused exactly if a word is put that is no
scalar value. Nothing else stops an assignment whose slot and word are settled if the sink has no
bounds. As a statement, an assignment is the same at every depth below the limit, and at the limit
it changes nothing at all. -/
theorem assign_atomic (machine : Machine) :
    (∀ expr, SameButInput machine (final (evaluate expr machine))) ∧
    (∀ ref, SameButInput machine (final (slotOf ref machine))) ∧
    ∀ target value,
      (∀ stop after, assign target value machine = .error stop after →
        stop ≠ .failure (.runtime (.device .sinkFull)) → SameButInput machine after) ∧
      (∀ after, assign target value machine = .ok () after →
        ∃ slot word settled, Settles target value machine slot word settled ∧
          Delivered slot word machine after) ∧
      (∀ word,
        (∃ after, assign target value machine =
          .error (.failure (.runtime (.invalidCharacter word))) after) ↔
        (∃ settled, Settles target value machine putName word settled) ∧ ¬ word.IsScalar) ∧
      (∀ slot word settled, Settles target value machine slot word settled →
        (slot = putName → word.IsScalar) → machine.sink.capacity? = none →
          ∃ after, assign target value machine = .ok () after) ∧
      ∀ laps, execute laps (.assign target value) machine =
        if machine.limit ≤ machine.depth then
          .error (.failure (.runtime (.tooDeep machine.limit))) machine
        else
          assign target value machine := by
  refine ⟨fun expr => reading_sameButInput _ machine, fun ref => reading_sameButInput _ machine,
    fun target value => ?_⟩
  have concludes := assign_concludes target value machine
  refine ⟨?_, ?_, fun word => ⟨?_, ?_⟩, ?_, fun laps => ?_⟩
  · intro stop after fails notFull
    rw [fails] at concludes
    cases concludes with
    | refused settles => exact settles.sameButInput
    | unsettled => rfl
    | full => exact absurd rfl notFull
  · intro after run
    rw [run] at concludes
    cases concludes with
    | delivered settles delivered => exact ⟨_, _, _, settles, delivered⟩
  · rintro ⟨after, fails⟩
    rw [fails] at concludes
    cases concludes with
    | refused settles notScalar => exact ⟨⟨_, settles⟩, notScalar⟩
    | unsettled early => exact absurd rfl (early word)
  · rintro ⟨⟨settled, settles⟩, notScalar⟩
    exact ⟨settled, settles.assign_eq.trans (deliver_of_not_isScalar notScalar settled)⟩
  · intro slot word settled settles scalar unbounded
    rcases deliver_outcome slot word settled with
      ⟨after, run, _⟩ | ⟨isPut, notScalar⟩ | ⟨bounded, _⟩
    · exact ⟨after, settles.assign_eq.trans run⟩
    · exact absurd (scalar isPut) notScalar
    · rw [settles.sameButInput] at bounded
      exact absurd unbounded bounded
  · rw [execute]
    exact (IgnoresDepth.assign target value).nested_eq machine

/-- A division by zero behind a character that was taken, a slot whose index is taken from the
input, a surrogate that is put and the largest character that is. -/
theorem assign_atomic_taking :
    (assign (.indexed (.plain "a") (.reference (.plain "get")))
          (.binary .divide (.literal 1) (.literal 0)) (start 1 ⟨['x', 'y'], []⟩ .unlimited) =
        .error (.failure (.runtime .divisionByZero)) (start 1 ⟨['y'], []⟩ .unlimited) ∧
      SameButInput (start 1 ⟨['x', 'y'], []⟩ .unlimited) (start 1 ⟨['y'], []⟩ .unlimited)) ∧
    (assign (.indexed (.plain "a") (.reference (.plain "get"))) (.reference (.plain "get"))
          (start 1 ⟨['x', 'y'], []⟩ .unlimited) =
        .ok () { start 1 ⟨[], []⟩ .unlimited with store := Store.empty.set "a.120" 121 } ∧
      Delivered "a.120" 121 (start 1 ⟨['x', 'y'], []⟩ .unlimited)
        { start 1 ⟨[], []⟩ .unlimited with store := Store.empty.set "a.120" 121 }) ∧
    (∃ after, assign (.plain "put") (.literal 0xd800) (start 1 ⟨[], []⟩ .unlimited) =
      .error (.failure (.runtime (.invalidCharacter 0xd800))) after) ∧
    ∃ after, assign (.plain "put") (.literal 0x10ffff) (start 1 ⟨[], []⟩ .unlimited) =
      .ok () after := by
  have atomic (machine : Machine) := (assign_atomic machine).2.2
  refine ⟨⟨rfl, ?_⟩, ⟨rfl, ?_⟩, ?_, ?_⟩
  · exact (atomic _ (.indexed (.plain "a") (.reference (.plain "get")))
      (.binary .divide (.literal 1) (.literal 0))).1 _ _ rfl nofun
  · obtain ⟨_, _, _, ⟨_, slotRun, valueRun⟩, delivered⟩ :=
      (atomic (start 1 ⟨['x', 'y'], []⟩ .unlimited)
        (.indexed (.plain "a") (.reference (.plain "get"))) (.reference (.plain "get"))).2.1 _ rfl
    cases slotRun
    cases valueRun
    exact delivered
  · exact ((atomic _ _ _).2.2.1 0xd800).2 ⟨⟨_, _, rfl, rfl⟩, by decide⟩
  · exact (atomic _ _ _).2.2.2.1 putName 0x10ffff _ ⟨_, rfl, rfl⟩ (fun _ => by decide) rfl

end Machine

end Slate
