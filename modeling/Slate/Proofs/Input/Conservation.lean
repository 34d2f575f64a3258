import Mathlib.Data.List.SplitBy
import Slate.Proofs.Evaluation.Requests
import Slate.Proofs.Token.Spelling

/-!
No character of the input is lost, doubled or moved. The text of a stream is fixed by its bytes, and
whatever is asked of the input, the characters taken so far, the buffer and the text of the bytes
that are still unread make up that text.
-/

set_option autoImplicit false

namespace Slate

namespace ByteStream

/-- The lines of a stream. A line goes up to its line feed, which the last one may lack. -/
def lines (bytes : List UInt8) : List (List UInt8) :=
  bytes.splitBy fun byte _ => byte != 10

/-- A line without its line feed and without a carriage return directly before that. -/
def withoutEnd (line : List Char) : List Char :=
  if ['\r', '\n'] <:+ line then
    line.dropLast.dropLast
  else if ['\n'] <:+ line then
    line.dropLast
  else
    line

/-- The text of a line that is valid UTF-8. -/
def text? (line : List UInt8) : Option (List Char) :=
  (String.fromUTF8? ⟨line.toArray⟩).map fun decoded => withoutEnd decoded.toList

/-- The text of all lines that have one. -/
def text (bytes : List UInt8) : List Char :=
  (lines bytes).flatMap fun line => (text? line).getD []

theorem lines_flatten_right
    {bytes : List UInt8} {front rest : List (List UInt8)} (split : lines bytes = front ++ rest) :
    lines rest.flatten = rest := by
  obtain ⟨_, nonempty, chains, between⟩ := List.splitBy_eq_iff.1 split
  refine List.splitBy_flatten (fun member => nonempty (List.mem_append_right front member))
    (fun line member => chains line (List.mem_append_right front member)) ?_
  exact (List.isChain_append.1 between).2.1

end ByteStream

namespace Input

theorem addByte_lines (byte : UInt8) (bytes : List UInt8) :
    addByte byte (ByteStream.lines bytes) = ByteStream.lines (byte :: bytes) := by
  unfold addByte
  by_cases feed : byte = 10
  · have apart :
        ByteStream.lines ([byte] ++ bytes) = ByteStream.lines [byte] ++ ByteStream.lines bytes :=
      List.splitBy_append (by simp [feed])
    rw [if_pos feed]
    exact apart.symm
  · -- Any other byte joins the first line, and where that line ends is still the same.
    rw [if_neg feed]
    cases split : ByteStream.lines bytes with
    | nil =>
        rw [List.splitBy_eq_nil.1 split]
        rfl
    | cons line rest =>
        obtain ⟨rfl, nonempty, chains, between⟩ := List.splitBy_eq_iff.1 split
        obtain ⟨lineChain, restChains⟩ := List.forall_mem_cons.1 chains
        obtain ⟨lineNonempty, restNonempty⟩ := not_or.1 (mt List.mem_cons.2 nonempty)
        refine (List.splitBy_eq_iff.2 ⟨rfl, by simpa using restNonempty, ?_, ?_⟩).symm
        · exact List.forall_mem_cons.2 ⟨List.isChain_cons.2 ⟨by simp [feed], lineChain⟩, restChains⟩
        · obtain ⟨beforeNext, restBetween⟩ := List.isChain_cons.1 between
          refine List.isChain_cons.2 ⟨fun next isNext => ?_, restBetween⟩
          obtain ⟨hasLast, hasHead, apart⟩ := beforeNext next isNext
          exact ⟨List.cons_ne_nil byte line, hasHead, by rwa [List.getLast_cons hasLast]⟩

theorem splitLines_eq (bytes : List UInt8) : splitLines bytes = ByteStream.lines bytes := by
  induction bytes with
  | nil => rfl
  | cons byte bytes inductionHypothesis =>
      rw [← addByte_lines, ← inductionHypothesis]
      rfl

theorem chomp_eq (line : List Char) : chomp line = ByteStream.withoutEnd line := by
  obtain ⟨backwards, rfl⟩ : ∃ backwards : List Char, line = backwards.reverse :=
    ⟨line.reverse, line.reverse_reverse.symm⟩
  have ends (suffix : List Char) :
      suffix <:+ backwards.reverse ↔ suffix.reverse <+: backwards := by
    rw [← List.reverse_prefix, List.reverse_reverse]
  simp only [chomp, ByteStream.withoutEnd, ends, List.reverse_reverse, List.dropLast_reverse]
  split
  next front => simp
  next front noReturn =>
    have returnless : ¬ ['\n', '\r'] <+: '\n' :: front := by
      rintro ⟨rest, isFront⟩
      exact noReturn rest (List.cons.inj isFront).2.symm
    simp [returnless]
  next noReturn noFeed =>
    have feedless : ¬ ['\n'] <+: backwards := fun ⟨rest, isAll⟩ => noFeed rest isAll.symm
    have returnless : ¬ ['\n', '\r'] <+: backwards :=
      fun ⟨rest, isAll⟩ => noReturn rest isAll.symm
    simp [feedless, returnless]

theorem lineText?_eq (line : List UInt8) : lineText? line = ByteStream.text? line := by
  simp only [lineText?, ByteStream.text?, chomp_eq]

end Input

namespace Numeral

/-- A numeral of the input and its value: digits, possibly behind a minus sign. -/
inductive Denotes : List Char → Int → Prop
  | natural {digits : List Char} : digits ≠ [] → (∀ digit ∈ digits, digit.isDigit = true) →
      Denotes digits (value digits)
  | negative {digits : List Char} : digits ≠ [] → (∀ digit ∈ digits, digit.isDigit = true) →
      Denotes ('-' :: digits) (-(value digits : Int))

/-- The text begins with a numeral that has this value and goes on with something else. -/
structure Leads (numeral : List Char) (value : Word) (text further : List Char) : Prop where
  split : text = numeral ++ further
  denotes : Denotes numeral value.toInt
  stops : ∀ character ∈ further.head?, character.isDigit = false

theorem toWord?_of_digit {first : Char} (digit : first.isDigit = true) (tail : List Char) :
    toWord? (first :: tail) = Word.ofInt? (value (first :: tail)) := by
  unfold toWord?
  split
  next isMinus =>
    cases isMinus
    cases digit
  next => rfl

theorem Denotes.toWord?_eq
    {numeral : List Char} {size : Int} (denotes : Denotes numeral size) :
    toWord? numeral = Word.ofInt? size := by
  cases denotes with
  | natural nonempty digits =>
      obtain ⟨first, tail, rfl⟩ := List.exists_cons_of_ne_nil nonempty
      exact toWord?_of_digit (digits first List.mem_cons_self) tail
  | negative nonempty digits =>
      rw [toWord?, if_neg (by simpa using nonempty)]

end Numeral

namespace Input

open Numeral

theorem literal_eq_of_leads
    {numeral text further : List Char} {value : Word} (leads : Leads numeral value text further) :
    literal text = numeral := by
  obtain ⟨rfl, denotes, stops⟩ := leads
  generalize value.toInt = size at denotes
  cases denotes with
  | natural nonempty digits =>
      obtain ⟨first, tail, rfl⟩ := List.exists_cons_of_ne_nil nonempty
      obtain ⟨firstDigit, tailDigits⟩ := List.forall_mem_cons.1 digits
      rw [List.cons_append, literal, if_pos (.inr firstDigit),
        Token.takeWhile_append_of_stops tailDigits stops]
  | negative nonempty digits =>
      rw [List.cons_append, literal, if_pos (.inl rfl),
        Token.takeWhile_append_of_stops digits stops]

/-- The buffer begins with the literal, which takes all digits that it can. -/
theorem literal_cases (text : List Char) :
    literal text = [] ∨
      ∃ first digits further, literal text = first :: digits ∧
        text = first :: digits ++ further ∧ (first = '-' ∨ first.isDigit = true) ∧
        (∀ digit ∈ digits, digit.isDigit = true) ∧
        ∀ character ∈ further.head?, character.isDigit = false := by
  unfold literal
  split
  · exact .inl rfl
  next first rest =>
    split
    next begins =>
      refine .inr ⟨first, rest.takeWhile Char.isDigit, rest.dropWhile Char.isDigit, rfl, ?_,
        begins, ?_, ?_⟩
      · rw [List.cons_append, List.takeWhile_append_dropWhile]
      · exact List.all_eq_true.1 List.all_takeWhile
      · have stops := List.head?_dropWhile_not Char.isDigit rest
        intro character isFirst
        rwa [isFirst] at stops
    next => exact .inl rfl

theorem exists_leads
    {text : List Char} {word : Word} (isWord : toWord? (literal text) = some word) :
    ∃ further, Leads (literal text) word text further := by
  obtain none | ⟨first, digits, further, isLiteral, split, begins, areDigits, stops⟩ :=
    literal_cases text
  · rw [none] at isWord
    cases isWord
  · rw [isLiteral] at isWord ⊢
    -- A minus sign alone denotes nothing, but then there is no word either.
    have denotes : ∃ size, Denotes (first :: digits) size := by
      obtain rfl | digit := begins
      · cases digits with
        | nil => cases isWord
        | cons second digits => exact ⟨_, .negative (List.cons_ne_nil second digits) areDigits⟩
      · exact ⟨_, .natural (List.cons_ne_nil first digits)
          (List.forall_mem_cons.2 ⟨digit, areDigits⟩)⟩
    obtain ⟨size, denotes⟩ := denotes
    have sameSize : word.toInt = size := Word.ofInt?_eq_some_iff.1 (denotes.toWord?_eq ▸ isWord)
    exact ⟨further, split, sameSize ▸ denotes, stops⟩

theorem not_leads_of_toWord?
    {text : List Char} (noWord : toWord? (literal text) = none) (numeral further : List Char)
    (value : Word) : ¬ Leads numeral value text further := by
  intro leads
  rw [literal_eq_of_leads leads, leads.denotes.toWord?_eq, Word.ofInt?_toInt] at noWord
  cases noWord

end Input

open ByteStream Numeral

/-- Where a reader of a stream stands: its buffer, and the bytes that it has not read yet. -/
structure Position where
  buffer : List Char
  unread : List UInt8

namespace Position

def input (position : Position) : Input where
  buffer := position.buffer
  lines := (Input.splitLines position.unread).map Input.lineText?

/-- The text ahead of a position. -/
def ahead (position : Position) : List Char :=
  position.buffer ++ text position.unread

/-- The lines are passed over by a reader in search of a character. -/
def AllEmpty (lines : List (List UInt8)) : Prop :=
  ∀ line ∈ lines, text? line = some []

/-- The buffer holds a character or gets the next line that has one. -/
inductive Fills : Position → Position → Prop
  | already {first : Char} {rest : List Char} {unread : List UInt8} :
      Fills ⟨first :: rest, unread⟩ ⟨first :: rest, unread⟩
  | pulled {unread left : List UInt8} {skipped : List (List UInt8)} {line : List UInt8}
      {first : Char} {rest : List Char} :
      lines unread = skipped ++ line :: lines left → AllEmpty skipped →
        text? line = some (first :: rest) → Fills ⟨[], unread⟩ ⟨first :: rest, left⟩

/-- The next line with anything in it is not text. -/
inductive Fails : Position → Position → Prop
  | notText {unread left : List UInt8} {skipped : List (List UInt8)} {line : List UInt8} :
      lines unread = skipped ++ line :: lines left → AllEmpty skipped → text? line = none →
        Fails ⟨[], unread⟩ ⟨[], left⟩

/-- There are no more characters. -/
inductive Exhausted : Position → Prop
  | empty {unread : List UInt8} : AllEmpty (lines unread) → Exhausted ⟨[], unread⟩

theorem input_lines (position : Position) :
    position.input.lines = (lines position.unread).map text? := by
  simp only [input, Input.splitLines_eq]
  exact List.map_congr_left fun line _ => Input.lineText?_eq line

theorem pull_skip
    {skipped : List (List UInt8)} (allEmpty : AllEmpty skipped) (rest : List (Option (List Char))) :
    Input.pull (skipped.map text? ++ rest) = Input.pull rest := by
  induction skipped with
  | nil => rfl
  | cons line skipped inductionHypothesis =>
      obtain ⟨lineEmpty, restEmpty⟩ := List.forall_mem_cons.1 allEmpty
      rw [List.map_cons, List.cons_append, lineEmpty, Input.pull, inductionHypothesis restEmpty]

theorem fill_eq_pull (unread : List UInt8) :
    Input.fill (input ⟨[], unread⟩) = Input.pull ((lines unread).map text?) := by
  rw [← input_lines ⟨[], unread⟩]
  rfl

theorem fill_skip
    {unread left : List UInt8} {skipped : List (List UInt8)} {line : List UInt8}
    (split : lines unread = skipped ++ line :: lines left) (allEmpty : AllEmpty skipped) :
    Input.fill (input ⟨[], unread⟩) = Input.pull (text? line :: (input ⟨[], left⟩).lines) := by
  rw [fill_eq_pull, split, List.map_append, pull_skip allEmpty, List.map_cons, input_lines]

variable {before after : Position}

theorem Fills.fill_eq (fills : Fills before after) :
    Input.fill before.input = .ok true after.input := by
  cases fills with
  | already => rfl
  | pulled split allEmpty isText =>
      rw [fill_skip split allEmpty, isText]
      rfl

theorem Fails.fill_eq (fails : Fails before after) :
    Input.fill before.input = .error (.device .notText) after.input := by
  cases fails with
  | notText split allEmpty isText =>
      rw [fill_skip split allEmpty, isText]
      rfl

theorem Exhausted.fill_eq (exhausted : Exhausted before) :
    Input.fill before.input = .ok false (input ⟨[], []⟩) := by
  cases exhausted with
  | empty allEmpty =>
      have skipped := pull_skip allEmpty []
      rw [List.append_nil] at skipped
      rw [fill_eq_pull, skipped]
      rfl

/-- The first line that is not empty. -/
theorem lines_cases (found : List (List UInt8)) :
    AllEmpty found ∨
      ∃ skipped line rest, found = skipped ++ line :: rest ∧ AllEmpty skipped ∧
        text? line ≠ some [] := by
  induction found with
  | nil => exact .inl nofun
  | cons line rest inductionHypothesis =>
      by_cases lineEmpty : text? line = some []
      · obtain allEmpty | ⟨skipped, next, further, rfl, allEmpty, isNext⟩ := inductionHypothesis
        · exact .inl (List.forall_mem_cons.2 ⟨lineEmpty, allEmpty⟩)
        · exact .inr ⟨line :: skipped, next, further, rfl,
            List.forall_mem_cons.2 ⟨lineEmpty, allEmpty⟩, isNext⟩
      · exact .inr ⟨[], line, rest, rfl, nofun, lineEmpty⟩

theorem fill_cases (position : Position) :
    Exhausted position ∨ (∃ after, Fails position after) ∨
      ∃ first rest unread, Fills position ⟨first :: rest, unread⟩ := by
  obtain ⟨_ | ⟨first, rest⟩, unread⟩ := position
  · obtain allEmpty | ⟨skipped, line, rest, split, allEmpty, isNext⟩ := lines_cases (lines unread)
    · exact .inl (.empty allEmpty)
    have isRest : lines rest.flatten = rest :=
      lines_flatten_right (split.trans (List.append_cons skipped line rest))
    cases isText : text? line with
    | none => exact .inr (.inl ⟨_, .notText (isRest.symm ▸ split) allEmpty isText⟩)
    | some found =>
        cases found with
        | nil => exact absurd isText isNext
        | cons first tail =>
            exact .inr (.inr ⟨first, tail, _, .pulled (isRest.symm ▸ split) allEmpty isText⟩)
  · exact .inr (.inr ⟨first, rest, unread, .already⟩)

theorem AllEmpty.text_eq {skipped : List (List UInt8)} (allEmpty : AllEmpty skipped) :
    (skipped.flatMap fun line => (text? line).getD []) = [] := by
  refine List.flatMap_eq_nil_iff.2 fun line member => ?_
  rw [allEmpty line member]
  rfl

theorem text_skip
    {unread left : List UInt8} {skipped : List (List UInt8)} {line : List UInt8}
    (split : lines unread = skipped ++ line :: lines left) (allEmpty : AllEmpty skipped) :
    text unread = (text? line).getD [] ++ text left := by
  rw [text, split, List.flatMap_append, allEmpty.text_eq, List.nil_append, List.flatMap_cons,
    ← text]

theorem Fills.ahead_eq (fills : Fills before after) : after.ahead = before.ahead := by
  cases fills with
  | already => rfl
  | pulled split allEmpty isText =>
      simp only [ahead, text_skip split allEmpty, isText, Option.getD_some, List.nil_append]

theorem Fails.ahead_eq (fails : Fails before after) : after.ahead = before.ahead := by
  cases fails with
  | notText split allEmpty isText =>
      simp only [ahead, text_skip split allEmpty, isText, Option.getD_none, List.nil_append]

theorem Exhausted.ahead_eq (exhausted : Exhausted before) : before.ahead = [] := by
  cases exhausted with
  | empty allEmpty => exact allEmpty.text_eq

end Position

open Position

/-- How a request is served: its result, the characters that it takes, and where it leaves the
reader. -/
inductive Served :
    Request → Position → Except Fault Word → List Char → Position → Prop
  | character {before : Position} {first : Char} {rest : List Char} {unread : List UInt8}
      {code : Word} :
      Fills before ⟨first :: rest, unread⟩ → code.toInt = first.toNat →
        Served .character before (.ok code) [first] ⟨rest, unread⟩
  | integer {before : Position} {buffer numeral blank rest : List Char} {unread : List UInt8}
      {value : Word} :
      Fills before ⟨buffer, unread⟩ → Leads numeral value buffer (blank ++ rest) →
        blank = [' '] ∨ blank = [] ∧ rest.head? ≠ some ' ' →
        Served .integer before (.ok value) (numeral ++ blank) ⟨rest, unread⟩
  | malformed {before after : Position} :
      Fills before after →
        (∀ numeral further value, ¬ Leads numeral value after.buffer further) →
        Served .integer before (.error (.malformedInput (String.ofList after.buffer))) [] after
  | notText {request : Request} {before after : Position} :
      Fails before after → Served request before (.error (.device .notText)) [] after
  | exhausted {request : Request} {before : Position} :
      Exhausted before → Served request before (.ok 0) [] ⟨[], []⟩

/-- The result of a request and the input that it leaves. -/
def Request.outcome (request : Request) (input : Input) : Except Fault Word × Input :=
  match request.answer input with
  | .ok value after => (.ok value, after)
  | .error fault after => (.error fault, after)

/-- The results of requests that are made one after the other, whether they fail or not. -/
def Request.outcomes : List Request → Input → List (Except Fault Word) × Input
  | [], input => ([], input)
  | request :: requests, input =>
      let (outcome, middle) := request.outcome input
      let (further, after) := outcomes requests middle
      (outcome :: further, after)

namespace Input

theorem readCharacter_run {input middle : Input} {first : Char} {rest : List Char}
    (filled : fill input = .ok true middle) (isBuffer : middle.buffer = first :: rest) :
    readCharacter input = .ok (Word.ofChar first) { middle with buffer := rest } := by
  unfold readCharacter
  rw [bind_of_ok filled, if_pos rfl, get_bind, isBuffer]
  rfl

theorem afterLiteral_append {numeral blank rest : List Char}
    (isBlank : blank = [' '] ∨ blank = [] ∧ rest.head? ≠ some ' ') :
    afterLiteral numeral.length (numeral ++ (blank ++ rest)) = rest := by
  unfold afterLiteral
  rw [List.drop_left]
  obtain rfl | ⟨rfl, noBlank⟩ := isBlank
  · rfl
  · rw [List.nil_append]
    split
    · exact absurd rfl noBlank
    · rfl

theorem exists_blank (further : List Char) :
    ∃ blank rest, further = blank ++ rest ∧
      (blank = [' '] ∨ blank = [] ∧ rest.head? ≠ some ' ') := by
  by_cases isBlank : further.head? = some ' '
  · obtain ⟨rest, rfl⟩ := List.head?_eq_some_iff.1 isBlank
    exact ⟨[' '], rest, rfl, .inl rfl⟩
  · exact ⟨[], further, rfl, .inr ⟨rfl, isBlank⟩⟩

end Input

namespace Served

variable {request : Request} {before after : Position} {outcome : Except Fault Word}
  {taken : List Char}

theorem outcome_eq (served : Served request before outcome taken after) :
    request.outcome before.input = (outcome, after.input) := by
  unfold Request.outcome
  cases served with
  | character fills isCode =>
      rw [Request.answer, Input.readCharacter_run fills.fill_eq rfl,
        Int64.toInt_inj.1 (isCode.trans (Word.toInt_ofChar _).symm)]
      rfl
  | integer fills leads isBlank =>
      obtain ⟨rfl, denotes, stops⟩ := leads
      have isLiteral := Input.literal_eq_of_leads ⟨rfl, denotes, stops⟩
      have isWord := denotes.toWord?_eq.trans (Word.ofInt?_toInt _)
      rw [Request.answer, Input.readInteger_run fills.fill_eq]
      simp only [input, isLiteral, isWord, Input.afterLiteral_append isBlank]
  | malformed fills noNumeral =>
      rw [Request.answer, Input.readInteger_run fills.fill_eq]
      cases isWord : toWord? (Input.literal after.input.buffer) with
      | none => rfl
      | some value =>
          obtain ⟨further, leads⟩ := Input.exists_leads isWord
          exact absurd leads (noNumeral _ further value)
  | notText fails =>
      cases request with
      | integer => rw [Request.answer, Input.readInteger, bind_of_error fails.fill_eq]
      | character => rw [Request.answer, Input.readCharacter, bind_of_error fails.fill_eq]
  | exhausted isExhausted =>
      cases request with
      | integer =>
          rw [Request.answer, Input.readInteger, bind_of_ok isExhausted.fill_eq]
          rfl
      | character =>
          rw [Request.answer, Input.readCharacter, bind_of_ok isExhausted.fill_eq]
          rfl

theorem ahead_eq (served : Served request before outcome taken after) :
    taken ++ after.ahead = before.ahead := by
  cases served with
  | character fills isCode => exact fills.ahead_eq
  | integer fills leads isBlank =>
      rw [← fills.ahead_eq]
      simp only [ahead, leads.split, List.append_assoc]
  | malformed fills noNumeral => exact fills.ahead_eq
  | notText fails => exact fails.ahead_eq
  | exhausted isExhausted => exact isExhausted.ahead_eq.symm

/-- Only where nothing is left does an answer cost nothing. -/
theorem exhausted_of_taken_nil
    {value : Word} (served : Served request before (.ok value) taken after)
    (isNil : taken = []) : Exhausted before ∧ value = 0 ∧ after = ⟨[], []⟩ := by
  cases served with
  | character => cases isNil
  | integer fills leads isBlank =>
      have noNumeral := leads.denotes
      rw [(List.append_eq_nil_iff.1 isNil).1] at noNumeral
      generalize value.toInt = size at noNumeral
      cases noNumeral with
      | natural nonempty _ => exact absurd rfl nonempty
  | exhausted isExhausted => exact ⟨isExhausted, rfl, rfl⟩

theorem exists_served (request : Request) (before : Position) :
    ∃ outcome taken after, Served request before outcome taken after := by
  obtain isExhausted | ⟨after, fails⟩ | ⟨first, rest, unread, fills⟩ := fill_cases before
  · exact ⟨_, _, _, .exhausted isExhausted⟩
  · exact ⟨_, _, _, .notText fails⟩
  · cases request with
    | character => exact ⟨_, _, _, .character fills (Word.toInt_ofChar first)⟩
    | integer =>
        cases isWord : toWord? (Input.literal (first :: rest)) with
        | none =>
            refine ⟨_, _, _, .malformed fills fun numeral further value => ?_⟩
            exact Input.not_leads_of_toWord? isWord numeral further value
        | some value =>
            obtain ⟨further, leads⟩ := Input.exists_leads isWord
            obtain ⟨blank, rest, rfl, isBlank⟩ := Input.exists_blank further
            exact ⟨_, _, _, .integer fills leads isBlank⟩

end Served

/-- Requests that are served one after the other, from one position to another. -/
inductive Session :
    Position → List Request → List (Except Fault Word) → List Char → Position → Prop
  | nil (position : Position) : Session position [] [] [] position
  | cons {request : Request} {requests : List Request} {outcome : Except Fault Word}
      {outcomes : List (Except Fault Word)} {taken further : List Char}
      {before middle after : Position} :
      Served request before outcome taken middle →
        Session middle requests outcomes further after →
        Session before (request :: requests) (outcome :: outcomes) (taken ++ further) after

namespace Session

variable {before after : Position} {requests : List Request}
  {outcomes : List (Except Fault Word)} {consumed : List Char}

theorem outcomes_eq (session : Session before requests outcomes consumed after) :
    Request.outcomes requests before.input = (outcomes, after.input) := by
  induction session with
  | nil => rfl
  | cons served _ inductionHypothesis =>
      simp only [Request.outcomes, served.outcome_eq, inductionHypothesis]

theorem ahead_eq (session : Session before requests outcomes consumed after) :
    consumed ++ after.ahead = before.ahead := by
  induction session with
  | nil => rfl
  | cons served _ inductionHypothesis =>
      rw [List.append_assoc, inductionHypothesis, served.ahead_eq]

theorem exists_session (requests : List Request) (before : Position) :
    ∃ outcomes consumed after, Session before requests outcomes consumed after := by
  induction requests generalizing before with
  | nil => exact ⟨[], [], before, .nil before⟩
  | cons request requests inductionHypothesis =>
      obtain ⟨outcome, taken, middle, served⟩ := Served.exists_served request before
      obtain ⟨outcomes, consumed, after, session⟩ := inductionHypothesis middle
      exact ⟨_, _, _, .cons served session⟩

end Session

theorem outcomes_of_end (requests : List Request) :
    Request.outcomes requests (input ⟨[], []⟩) =
      (requests.map fun _ => .ok 0, input ⟨[], []⟩) := by
  induction requests with
  | nil => rfl
  | cons request requests inductionHypothesis =>
      have served : Served request ⟨[], []⟩ (.ok 0) [] ⟨[], []⟩ := .exhausted (.empty nofun)
      simp only [Request.outcomes, served.outcome_eq, inductionHypothesis, List.map_cons]

/-- Whatever is asked of a stream, every request is served, as the input does it. What was taken so
far, the buffer and the text of the unread bytes are the text of the stream. A request that takes
nothing and answers with zero finds only empty lines, leaves nothing to read, and is followed by
zeros. -/
theorem requests_conserve_text (bytes : ByteArray) (requests : List Request) :
    (∃ outcomes consumed position,
      Session ⟨[], bytes.data.toList⟩ requests outcomes consumed position) ∧
    ∀ outcomes consumed position,
      Session ⟨[], bytes.data.toList⟩ requests outcomes consumed position →
        Request.outcomes requests (Input.ofBytes bytes) = (outcomes, position.input) ∧
        consumed ++ position.buffer ++ text position.unread = text bytes.data.toList ∧
        ∀ request after, Served request position (.ok 0) [] after →
          Exhausted position ∧ after = ⟨[], []⟩ ∧
            ∀ later, Request.outcomes later after.input =
              (later.map fun _ => .ok 0, after.input) := by
  refine ⟨Session.exists_session requests _, fun outcomes consumed position session => ?_⟩
  refine ⟨session.outcomes_eq, ?_, fun request after served => ?_⟩
  · rw [List.append_assoc]
    exact session.ahead_eq
  · obtain ⟨isExhausted, _, rfl⟩ := served.exhausted_of_taken_nil rfl
    exact ⟨isExhausted, rfl, outcomes_of_end⟩

end Slate
