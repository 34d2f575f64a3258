import Slate.Proofs.Execution.Truncation
import Slate.Proofs.Input.Conservation

/-!
Output that is read back as input. Numbers are recovered if each of them is followed by a blank or a
line feed, and characters are recovered if there is no line feed among them. What is written is
UTF-8, where no other character has the byte of a line feed in it. So the lines of the bytes are the
encoded lines of the text, and each of them reads as its text again.
-/

set_option autoImplicit false

namespace Slate

/-- All bytes of a longer encoding are beyond the first half of the bytes. -/
theorem toNat_of_mem_utf8EncodeChar
    {byte : UInt8} {character : Char} (member : byte ∈ String.utf8EncodeChar character)
    (firstHalf : byte.toNat < 128) : character.toNat = byte.toNat := by
  have isByte (number : Nat) : byte = UInt8.ofNat number ↔ number % 256 = byte.toNat := by
    rw [← UInt8.toNat_inj, UInt8.toNat_ofNat']
    exact eq_comm
  change character.val.toNat = _
  simp only [String.utf8EncodeChar] at member
  split at member
  · simp only [List.mem_singleton, isByte] at member
    omega
  split at member
  · simp only [List.mem_cons, List.not_mem_nil, or_false, isByte] at member
    omega
  split at member
  · simp only [List.mem_cons, List.not_mem_nil, or_false, isByte] at member
    omega
  · simp only [List.mem_cons, List.not_mem_nil, or_false, isByte] at member
    omega

theorem feed_of_mem_utf8EncodeChar
    {character : Char} (member : 10 ∈ String.utf8EncodeChar character) : character = '\n' := by
  rw [← Char.toNat_inj]
  exact toNat_of_mem_utf8EncodeChar member (by decide)

namespace Input

/-- Puts more text before the first line. -/
def prolong {α : Type} (front : List α) : List (List α) → List (List α)
  | [] => [front]
  | line :: rest => (front ++ line) :: rest

theorem prolong_prolong {α : Type} (first second : List α) (lines : List (List α)) :
    prolong first (prolong second lines) = prolong (first ++ second) lines := by
  cases lines <;> simp [prolong]

/-- The lines of a text, each with its line feed. The last one may lack it. -/
def textLines : List Char → List (List Char)
  | [] => []
  | character :: rest =>
      if character = '\n' then [character] :: textLines rest
      else prolong [character] (textLines rest)

theorem splitLines_feedless
    {bytes : List UInt8} (nonempty : bytes ≠ []) (feedless : 10 ∉ bytes) (rest : List UInt8) :
    splitLines (bytes ++ rest) = prolong bytes (splitLines rest) := by
  induction bytes with
  | nil => exact absurd rfl nonempty
  | cons byte bytes inductionHypothesis =>
      obtain ⟨noFeed, feedless⟩ := not_or.1 (mt List.mem_cons.2 feedless)
      have added (lines : List (List UInt8)) : addByte byte lines = prolong [byte] lines := by
        unfold addByte
        rw [if_neg (Ne.symm noFeed)]
        cases lines <;> rfl
      change addByte byte (splitLines (bytes ++ rest)) = _
      cases bytes with
      | nil => exact added _
      | cons second bytes =>
          rw [inductionHypothesis (List.cons_ne_nil _ _) feedless, added, prolong_prolong]
          rfl

theorem splitLines_utf8EncodeChar (text : List Char) :
    splitLines (text.flatMap String.utf8EncodeChar) =
      (textLines text).map (·.flatMap String.utf8EncodeChar) := by
  induction text with
  | nil => rfl
  | cons character rest inductionHypothesis =>
      rw [List.flatMap_cons, textLines]
      by_cases feed : character = '\n'
      · rw [if_pos feed, feed, List.map_cons, ← inductionHypothesis]
        rfl
      · have feedless : 10 ∉ String.utf8EncodeChar character :=
          fun member => feed (feed_of_mem_utf8EncodeChar member)
        rw [if_neg feed, splitLines_feedless String.utf8EncodeChar_ne_nil feedless,
          inductionHypothesis]
        cases textLines rest <;> simp [prolong]

theorem lineText?_utf8EncodeChar (line : List Char) :
    lineText? (line.flatMap String.utf8EncodeChar) = some (chomp line) := by
  have isText : String.fromUTF8? ⟨(line.flatMap String.utf8EncodeChar).toArray⟩ =
      some (String.ofList line) := by
    have bytes : (⟨(line.flatMap String.utf8EncodeChar).toArray⟩ : ByteArray) =
        (String.ofList line).toByteArray := by
      rw [String.toByteArray_ofList]
      exact ByteArray.ext List.data_toByteArray.symm
    rw [bytes, String.fromUTF8?, dif_pos (String.ofList line).isValidUTF8]
    rfl
  rw [lineText?, isText, Option.map_some, String.toList_ofList]

/-- The lines of a text without their ends. -/
def readLines (text : List Char) : List (List Char) :=
  (textLines text).map chomp

/-- The bytes of a text are read as the lines of the text. -/
theorem ofBytes_utf8Encode (text : List Char) :
    ofBytes text.utf8Encode = ⟨[], (readLines text).map some⟩ := by
  have bytes : text.utf8Encode.data.toList = text.flatMap String.utf8EncodeChar := by
    rw [List.utf8Encode, List.data_toByteArray, List.toList_toArray]
  rw [ofBytes, bytes, splitLines_utf8EncodeChar, readLines, List.map_map, List.map_map]
  congr 1
  exact List.map_congr_left fun line _ => lineText?_utf8EncodeChar line

theorem chomp_cons
    {character : Char} (noFeed : character ≠ '\n') (noReturn : character ≠ '\r')
    (line : List Char) : chomp (character :: line) = character :: chomp line := by
  have sameReturn : ['\r', '\n'] <:+ character :: line ↔ ['\r', '\n'] <:+ line := by
    rw [List.suffix_cons_iff]
    simp [noReturn.symm]
  have sameFeed : ['\n'] <:+ character :: line ↔ ['\n'] <:+ line := by
    rw [List.suffix_cons_iff]
    simp [noFeed.symm]
  simp only [chomp_eq, ByteStream.withoutEnd, sameReturn, sameFeed]
  split
  next ends =>
    obtain ⟨front, rfl⟩ := ends
    rw [List.dropLast_cons_of_ne_nil (by simp), List.dropLast_cons_of_ne_nil (by simp)]
  split
  next ends =>
    obtain ⟨front, rfl⟩ := ends
    rw [List.dropLast_cons_of_ne_nil (by simp)]
  next => rfl

theorem chomp_feedless {text : List Char} (feedless : '\n' ∉ text) : chomp text = text := by
  have noReturn : ¬ ['\r', '\n'] <:+ text := fun ends => feedless (ends.subset (by simp))
  have noFeed : ¬ ['\n'] <:+ text := fun ends => feedless (ends.subset (by simp))
  rw [chomp_eq, ByteStream.withoutEnd, if_neg noReturn, if_neg noFeed]

theorem readLines_feed (rest : List Char) : readLines ('\n' :: rest) = [] :: readLines rest :=
  rfl

theorem readLines_append
    {front : List Char} (nonempty : front ≠ [])
    (plain : ∀ character ∈ front, character ≠ '\n' ∧ character ≠ '\r') (rest : List Char) :
    readLines (front ++ rest) = prolong front (readLines rest) := by
  induction front with
  | nil => exact absurd rfl nonempty
  | cons character front inductionHypothesis =>
      obtain ⟨⟨noFeed, noReturn⟩, plain⟩ := List.forall_mem_cons.1 plain
      have added (text : List Char) :
          readLines (character :: text) = prolong [character] (readLines text) := by
        rw [readLines, textLines, if_neg noFeed, readLines]
        cases textLines text with
        | nil => exact congrArg ([·]) (chomp_cons noFeed noReturn [])
        | cons line lines => exact congrArg (· :: _) (chomp_cons noFeed noReturn line)
      rw [List.cons_append, added]
      cases front with
      | nil => rfl
      | cons second front =>
          rw [inductionHypothesis (List.cons_ne_nil _ _) plain, prolong_prolong]
          rfl

theorem readLines_feedless {text : List Char} (nonempty : text ≠ []) (feedless : '\n' ∉ text) :
    readLines text = [text] := by
  have single : textLines text = [text] := by
    induction text with
    | nil => exact absurd rfl nonempty
    | cons character rest inductionHypothesis =>
        obtain ⟨noFeed, feedless⟩ := not_or.1 (mt List.mem_cons.2 feedless)
        rw [textLines, if_neg (Ne.symm noFeed)]
        cases rest with
        | nil => rfl
        | cons second rest =>
            rw [inductionHypothesis (List.cons_ne_nil _ _) feedless]
            rfl
  rw [readLines, single, List.map_singleton, chomp_feedless feedless]

end Input

namespace Numeral

theorem denotes_ofInt (size : Int) : Denotes (ofInt size) size := by
  have digits (count : Nat) : ∀ digit ∈ Nat.toDigits 10 count, digit.isDigit = true :=
    fun _ => Nat.isDigit_of_mem_toDigits (by decide) (by decide)
  have isValue (count : Nat) : value (Nat.toDigits 10 count) = count :=
    Nat.ofDigitChars_toDigits (by decide) (by decide)
  cases size with
  | ofNat count =>
      have denotes := Denotes.natural Nat.toDigits_ne_nil (digits count)
      rwa [isValue] at denotes
  | negSucc count =>
      have denotes := Denotes.negative Nat.toDigits_ne_nil (digits (count + 1))
      rwa [isValue] at denotes

theorem Denotes.ne_nil {numeral : List Char} {size : Int} (denotes : Denotes numeral size) :
    numeral ≠ [] := by
  cases denotes with
  | natural nonempty _ => exact nonempty
  | negative _ _ => exact List.cons_ne_nil _ _

/-- There is no line end in a numeral. -/
theorem Denotes.plain {numeral : List Char} {size : Int} (denotes : Denotes numeral size) :
    ∀ character ∈ numeral, character ≠ '\n' ∧ character ≠ '\r' := by
  have ofDigit {character : Char} (digit : character.isDigit = true) :
      character ≠ '\n' ∧ character ≠ '\r' := by
    constructor <;> rintro rfl <;> cases digit
  cases denotes with
  | natural _ digits => exact fun character member => ofDigit (digits character member)
  | negative _ digits =>
      exact List.forall_mem_cons.2
        ⟨by decide, fun character member => ofDigit (digits character member)⟩

end Numeral

theorem Word.denotes_decimal (value : Word) :
    Numeral.Denotes value.decimal.toList value.toInt := by
  rw [decimal, String.toList_ofList]
  exact Numeral.denotes_ofInt value.toInt

/-- A number is taken from the buffer together with the blank behind it. -/
theorem Input.readInteger_decimal
    (value : Word) {blank rest : List Char} (isBlank : blank = [' '] ∨ blank = [] ∧ rest = [])
    (lines : List (Option (List Char))) :
    readInteger ⟨value.decimal.toList ++ (blank ++ rest), lines⟩ = .ok value ⟨rest, lines⟩ := by
  have denotes := value.denotes_decimal
  generalize value.decimal.toList = numeral at denotes
  have filled : fill ⟨numeral ++ (blank ++ rest), lines⟩ =
      .ok true ⟨numeral ++ (blank ++ rest), lines⟩ := by
    obtain ⟨first, tail, rfl⟩ := List.exists_cons_of_ne_nil denotes.ne_nil
    rfl
  have stops : ∀ character ∈ (blank ++ rest).head?, character.isDigit = false := by
    obtain rfl | ⟨rfl, rfl⟩ := isBlank
    · rintro _ ⟨⟩
      rfl
    · nofun
  have isLiteral : literal (numeral ++ (blank ++ rest)) = numeral :=
    literal_eq_of_leads ⟨rfl, denotes, stops⟩
  have oneBlank : blank = [' '] ∨ blank = [] ∧ rest.head? ≠ some ' ' := by
    obtain isBlank | ⟨noBlank, rfl⟩ := isBlank
    · exact .inl isBlank
    · exact .inr ⟨noBlank, nofun⟩
  rw [readInteger_run filled]
  simp only [isLiteral, denotes.toWord?_eq, Word.ofInt?_toInt, afterLiteral_append oneBlank]

theorem Word.toChar?_ofChar (character : Char) : (ofChar character).toChar? = some character := by
  have isCode : (ofChar character).toInt.toNat = character.toNat := by
    rw [toInt_ofChar, Int.toNat_natCast]
  have valid : 0 ≤ ofChar character ∧ (ofChar character).toInt.toNat.isValidChar := by
    refine ⟨?_, isCode ▸ character.valid⟩
    rw [Int64.le_iff_toInt_le, toInt_ofChar]
    exact Int.natCast_nonneg _
  rw [toChar?, if_pos valid, isCode, Char.ofNat_toNat]

namespace Request

/-- The input answers the request with these words, one after the other, and has nothing more. -/
inductive Yields (request : Request) : Input → List Word → Prop
  | nil : Yields request ⟨[], []⟩ []
  | cons {input after : Input} {value : Word} {values : List Word} :
      request.answer input = .ok value after → Yields request after values →
        Yields request input (value :: values)

/-- A line is pulled as soon as it is needed, so it may as well be in the buffer before. -/
theorem answer_pull
    (request : Request) (line : List Char) (lines : List (Option (List Char))) :
    request.answer ⟨[], some line :: lines⟩ = request.answer ⟨line, lines⟩ := by
  have filled : Input.fill ⟨[], some line :: lines⟩ = Input.fill ⟨line, lines⟩ := by
    cases line <;> rfl
  cases request with
  | integer =>
      change EStateM.bind Input.fill _ _ = EStateM.bind Input.fill _ _
      simp only [EStateM.bind, filled]
  | character =>
      change EStateM.bind Input.fill _ _ = EStateM.bind Input.fill _ _
      simp only [EStateM.bind, filled]

theorem Yields.pulled
    {request : Request} {line : List Char} {lines : List (Option (List Char))} {values : List Word}
    (yields : request.Yields ⟨[], some line :: lines⟩ values) :
    request.Yields ⟨line, lines⟩ values := by
  cases yields with
  | cons answered further =>
      rw [answer_pull] at answered
      exact .cons answered further

/-- One more number before a text, with a blank between them. -/
theorem Yields.number_blank
    {text : List Char} {values : List Word}
    (yields : Request.integer.Yields ⟨[], (Input.readLines text).map some⟩ values) (value : Word) :
    Request.integer.Yields
      ⟨[], (Input.readLines (value.decimal.toList ++ ' ' :: text)).map some⟩ (value :: values) := by
  have numeral := value.denotes_decimal
  have plain : ∀ character ∈ value.decimal.toList ++ [' '],
      character ≠ '\n' ∧ character ≠ '\r' :=
    List.forall_mem_append.2 ⟨numeral.plain, List.forall_mem_singleton.2 (by decide)⟩
  rw [List.append_cons, Input.readLines_append (by simp) plain]
  -- The blank keeps the line open, so the number joins the first line of the text.
  cases isLines : Input.readLines text with
  | nil =>
      rw [isLines] at yields
      exact .cons ((answer_pull _ _ _).trans (Input.readInteger_decimal value (.inl rfl) [])) yields
  | cons line lines =>
      rw [isLines] at yields
      refine .cons ((answer_pull _ _ _).trans ?_) yields.pulled
      rw [List.append_assoc]
      exact Input.readInteger_decimal value (.inl rfl) _

/-- One more number before a text, on a line of its own. -/
theorem Yields.number_feed
    {text : List Char} {values : List Word}
    (yields : Request.integer.Yields ⟨[], (Input.readLines text).map some⟩ values) (value : Word) :
    Request.integer.Yields
      ⟨[], (Input.readLines (value.decimal.toList ++ '\n' :: text)).map some⟩
      (value :: values) := by
  have numeral := value.denotes_decimal
  rw [Input.readLines_append numeral.ne_nil numeral.plain, Input.readLines_feed]
  exact .cons ((answer_pull _ _ _).trans (Input.readInteger_decimal value (.inr ⟨rfl, rfl⟩) _))
    yields

/-- Characters without a line feed are one line, with all carriage returns in it. -/
theorem yields_characters {characters : List Char} (feedless : '\n' ∉ characters) :
    Request.character.Yields ⟨[], (Input.readLines characters).map some⟩
      (characters.map Word.ofChar) := by
  have buffered (characters : List Char) :
      Request.character.Yields ⟨characters, []⟩ (characters.map Word.ofChar) := by
    induction characters with
    | nil => exact .nil
    | cons character rest inductionHypothesis => exact .cons rfl inductionHypothesis
  cases characters with
  | nil => exact .nil
  | cons character rest =>
      rw [Input.readLines_feedless (List.cons_ne_nil _ _) feedless]
      exact .cons (answer_pull _ _ _) (buffered rest)

/-- The variable that makes the request. -/
def variableName : Request → String
  | .integer => readName
  | .character => getName

end Request

namespace Machine

/-- The values of a variable that is evaluated time and again. -/
def evaluations (name : String) : (times : Nat) → Action (List Word)
  | 0 => return []
  | times + 1 => do
      let value ← evaluate (.reference (.plain name))
      let further ← evaluations name times
      return value :: further

theorem evaluate_variable
    {request : Request} {machine : Machine} {value : Word} {input : Input}
    (answered : request.answer machine.input = .ok value input) :
    evaluate (.reference (.plain request.variableName)) machine =
      .ok value { machine with input } := by
  refine reading_eq_ok_iff.2 ⟨input, ?_, rfl⟩
  cases request with
  | integer => exact answered
  | character => exact answered

theorem evaluations_succ
    {name : String} {times : Nat} {machine middle after : Machine} {value : Word}
    {values : List Word} (first : evaluate (.reference (.plain name)) machine = .ok value middle)
    (further : evaluations name times middle = .ok values after) :
    evaluations name (times + 1) machine = .ok (value :: values) after := by
  rw [evaluations, bind_of_ok first, bind_of_ok further]
  rfl

theorem evaluations_of_end
    (request : Request) (times : Nat) {machine : Machine} (atEnd : machine.input = ⟨[], []⟩) :
    evaluations request.variableName times machine = .ok (List.replicate times 0) machine := by
  induction times with
  | zero => rfl
  | succ times inductionHypothesis =>
      have answered : request.answer machine.input = .ok 0 machine.input := by
        rw [atEnd]
        cases request <;> rfl
      exact evaluations_succ (evaluate_variable answered) inductionHypothesis

theorem evaluations_of_yields
    {request : Request} {input : Input} {values : List Word} (yields : request.Yields input values)
    (times : Nat) {machine : Machine} (isInput : machine.input = input) :
    ∃ after, evaluations request.variableName (values.length + times) machine =
      .ok (values ++ List.replicate times 0) after := by
  induction yields generalizing machine with
  | nil =>
      rw [List.length_nil, Nat.zero_add]
      exact ⟨machine, evaluations_of_end request times isInput⟩
  | @cons _ middle value values answered _ inductionHypothesis =>
      subst isInput
      have here : { machine with input := middle }.input = middle := rfl
      obtain ⟨after, further⟩ := inductionHypothesis here
      rw [List.length_cons, Nat.succ_add]
      exact ⟨after, evaluations_succ (evaluate_variable answered) further⟩

/-- A fresh machine with these bytes as its input evaluates the variable to these values, one after
the other, and to zero from then on. -/
def Recovers (name : String) (bytes : ByteArray) (values : List Word) : Prop :=
  ∀ limit sink times, ∃ after,
    evaluations name (values.length + times) (start limit (Input.ofBytes bytes) sink) =
      .ok (values ++ List.replicate times 0) after

theorem recovers_of_yields
    {request : Request} {text : List Char} {values : List Word}
    (yields : request.Yields ⟨[], (Input.readLines text).map some⟩ values) :
    Recovers request.variableName text.utf8Encode values := by
  intro limit sink times
  exact evaluations_of_yields yields times (Input.ofBytes_utf8Encode text)

/-- The statements assign these words to these variables, one after the other. The values are
evaluated with the store and the input, and leave another input behind. -/
inductive Assigning (store : Store) : Input → List Stmt → List (String × Word) → Input → Prop
  | nil (input : Input) : Assigning store input [] [] input
  | cons {name : String} {expr : Expr} {value : Word} {input middle after : Input}
      {statements : List Stmt} {assignments : List (String × Word)} :
      expr.eval store input = .ok value middle →
        Assigning store middle statements assignments after →
        Assigning store input (.assign (.plain name) expr :: statements)
          ((name, value) :: assignments) after

/-- Literals make any assignments, whatever the store and the input. -/
theorem Assigning.literals (store : Store) (input : Input) (assignments : List (String × Word)) :
    Assigning store input
      (assignments.map fun assignment => .assign (.plain assignment.1) (.literal assignment.2))
      assignments input := by
  induction assignments with
  | nil => exact .nil input
  | cons assignment rest inductionHypothesis => exact .cons rfl inductionHypothesis

/-- A machine that makes the assignments writes these bytes and stores nothing. -/
def Writes (assignments : List (String × Word)) (bytes : ByteArray) : Prop :=
  ∀ machine statements input, machine.depth < machine.limit → machine.sink.capacity? = none →
    Assigning machine.store machine.input statements assignments input →
    ∀ laps, executeAll laps statements machine = .ok () ({ machine with input }.appending bytes)

theorem appending_appending (machine : Machine) (bytes further : ByteArray) :
    (machine.appending bytes).appending further = machine.appending (bytes ++ further) := by
  simp only [appending, ByteArray.append_assoc]

theorem Writes.nil : Writes [] .empty := by
  intro machine statements input _ _ assigning laps
  cases assigning
  rw [appending, ByteArray.append_empty]
  rfl

theorem Writes.cons
    {name : String} {value : Word} {assignments : List (String × Word)} {bytes further : ByteArray}
    (delivered : ∀ machine : Machine, machine.sink.capacity? = none →
      deliver name value machine = .ok () (machine.appending bytes))
    (writes : Writes assignments further) :
    Writes ((name, value) :: assignments) (bytes ++ further) := by
  intro machine statements after within unbounded assigning laps
  cases assigning with
  | @cons _ expr _ _ middle _ statements _ evaluated assigning =>
      have isValue : evaluate expr { machine with depth := machine.depth + 1 } =
          .ok value { machine with input := middle, depth := machine.depth + 1 } :=
        reading_eq_ok_iff.2 ⟨middle, evaluated, rfl⟩
      have assigned : assign (.plain name) expr { machine with depth := machine.depth + 1 } =
          .ok () (appending { machine with input := middle, depth := machine.depth + 1 } bytes) :=
        (bind_of_ok isValue).trans (delivered _ unbounded)
      have first : execute laps (.assign (.plain name) expr) machine =
          .ok () (appending { machine with input := middle } bytes) := by
        rw [execute]
        exact nested_of_ok (Nat.not_le.2 within) assigned
      have rest := writes (appending { machine with input := middle } bytes) statements after within
        unbounded assigning laps
      rw [executeAll, bind_of_ok first, rest, ← appending_appending]
      rfl

theorem deliver_write
    (value : Word) (machine : Machine) (unbounded : machine.sink.capacity? = none) :
    deliver writeName value machine =
      .ok () (machine.appending value.decimal.toList.utf8Encode) := by
  have bytes : value.decimal.toList.utf8Encode = value.decimal.toUTF8 := by
    rw [← String.toByteArray_ofList, String.ofList_toList, String.toUTF8_eq_toByteArray]
  rw [deliver, if_pos rfl, bytes]
  simp [sinking, Sink.write, unbounded, appending]

theorem deliver_put
    (character : Char) (machine : Machine) (unbounded : machine.sink.capacity? = none) :
    deliver putName (Word.ofChar character) machine =
      .ok () (machine.appending [character].utf8Encode) := by
  have bytes : [character].utf8Encode = (String.singleton character).toUTF8 :=
    String.toByteArray_singleton.symm
  rw [deliver, if_neg (by decide), if_pos rfl, Word.toChar?_ofChar, bytes]
  simp [sinking, Sink.write, unbounded, appending]

theorem writes_characters (characters : List Char) :
    Writes (characters.map fun character => (putName, Word.ofChar character))
      characters.utf8Encode := by
  induction characters with
  | nil => exact .nil
  | cons character rest inductionHypothesis =>
      rw [← List.singleton_append, List.utf8Encode_append]
      exact .cons (deliver_put character) inductionHypothesis

theorem exists_numbers_text
    {entries : List (Word × Word)} (separated : ∀ entry ∈ entries, entry.2 = 32 ∨ entry.2 = 10) :
    ∃ text : List Char,
      Writes (entries.flatMap fun entry => [(writeName, entry.1), (putName, entry.2)])
        text.utf8Encode ∧
      Request.integer.Yields ⟨[], (Input.readLines text).map some⟩ (entries.map (·.1)) := by
  induction entries with
  | nil => exact ⟨[], .nil, .nil⟩
  | cons entry entries inductionHypothesis =>
      obtain ⟨value, separator⟩ := entry
      obtain ⟨isSeparator, separated⟩ := List.forall_mem_cons.1 separated
      obtain ⟨text, writes, yields⟩ := inductionHypothesis separated
      have written (character : Char) :
          Writes ((writeName, value) :: (putName, Word.ofChar character) ::
              entries.flatMap fun entry => [(writeName, entry.1), (putName, entry.2)])
            (value.decimal.toList ++ character :: text).utf8Encode := by
        rw [List.append_cons, List.utf8Encode_append, List.utf8Encode_append,
          ByteArray.append_assoc]
        exact .cons (deliver_write value) (.cons (deliver_put character) writes)
      obtain rfl | rfl := isSeparator
      · exact ⟨_, written ' ', yields.number_blank value⟩
      · exact ⟨_, written '\n', yields.number_feed value⟩

/-- The output is recovered when it is read back. This goes for all numbers that are written with a
blank or a line feed behind each of them, and for all characters but the line feed, which would be
dropped as a line end. -/
theorem output_read_back :
    (∀ entries : List (Word × Word), (∀ entry ∈ entries, entry.2 = 32 ∨ entry.2 = 10) →
      ∃ bytes,
        Writes (entries.flatMap fun entry => [(writeName, entry.1), (putName, entry.2)]) bytes ∧
        Recovers readName bytes (entries.map (·.1))) ∧
    (∀ characters : List Char, '\n' ∉ characters →
      ∃ bytes,
        Writes (characters.map fun character => (putName, Word.ofChar character)) bytes ∧
        Recovers getName bytes (characters.map Word.ofChar)) := by
  constructor
  · intro entries separated
    obtain ⟨text, writes, yields⟩ := exists_numbers_text separated
    exact ⟨text.utf8Encode, writes, recovers_of_yields yields⟩
  · intro characters feedless
    exact ⟨characters.utf8Encode, writes_characters characters,
      recovers_of_yields (Request.yields_characters feedless)⟩

/-- The smallest number and one that was read before, and characters that are easily lost. -/
theorem output_read_back_extremes :
    (∃ bytes,
      executeAll 0
          [.assign (.plain "write") (.literal Int64.minValue), .assign (.plain "put") (.literal 10),
            .assign (.plain "write") (.reference (.plain "read")),
            .assign (.plain "put") (.literal 32)]
          (start 1 ⟨['-', '0', '7'], []⟩ .unlimited) =
        .ok () ((start 1 ⟨[], []⟩ .unlimited).appending bytes) ∧
      Recovers "read" bytes [Int64.minValue, -7]) ∧
    ∃ bytes,
      executeAll 0
          [.assign (.plain "put") (.literal 13), .assign (.plain "put") (.literal 0),
            .assign (.plain "put") (.literal 0x1f600), .assign (.plain "put") (.literal 13)]
          (start 1 ⟨[], []⟩ .unlimited) =
        .ok () ((start 1 ⟨[], []⟩ .unlimited).appending bytes) ∧
      Recovers "get" bytes [13, 0, 0x1f600, 13] := by
  constructor
  · obtain ⟨bytes, writes, recovers⟩ :=
      output_read_back.1 [(Int64.minValue, 10), (-7, 32)] (by simp)
    refine ⟨bytes, writes _ _ _ (by decide) rfl ?_ 0, recovers⟩
    exact .cons rfl (.cons rfl (.cons rfl (.cons rfl (.nil _))))
  · obtain ⟨bytes, writes, recovers⟩ := output_read_back.2 ['\r', '\x00', '😀', '\r'] (by decide)
    exact ⟨bytes, writes _ _ _ (by decide) rfl (.literals _ _ _) 0, recovers⟩

end Machine

end Slate
