import Slate.Proofs.Printing.Print
import Slate.Proofs.Token.Spelling

/-!
Parsing undoes printing, for whole programs: a list of definitions and then the statements outside
all procedures. Under every limit beyond the number of tokens, the tokens make the program in which
each name stands for its last definition. Where every literal and every name can be spelled, the
same holds of the source text with single blanks between the spellings.
-/

set_option autoImplicit false

namespace Slate

open Grammar

mutual

/-- The literals are not negative, and the variables are names of the language. -/
def Expr.Spellable : Expr → Prop
  | .literal value => 0 ≤ value
  | .unary _ operand => operand.Spellable
  | .binary _ left right => left.Spellable ∧ right.Spellable
  | .select condition accepted rejected =>
      condition.Spellable ∧ accepted.Spellable ∧ rejected.Spellable
  | .reference ref => ref.Spellable

def Ref.Spellable : Ref → Prop
  | .plain name => Token.IsVariableName name
  | .indexed base index => base.Spellable ∧ index.Spellable

end

mutual

def Stmt.Spellable : Stmt → Prop
  | .block body => Stmt.AllSpellable body
  | .assign target value => target.Spellable ∧ value.Spellable
  | .branch condition accepted rejected =>
      condition.Spellable ∧ accepted.Spellable ∧ rejected.Spellable
  | .loop condition body => condition.Spellable ∧ body.Spellable

def Stmt.AllSpellable : List Stmt → Prop
  | [] => True
  | statement :: rest => statement.Spellable ∧ Stmt.AllSpellable rest

end

/-- Some source has all the tokens. -/
def AllLexical (word : List Token) : Prop :=
  ∀ token ∈ word, token.Lexical

@[simp]
theorem allLexical_nil : AllLexical [] :=
  List.forall_mem_nil _

@[simp]
theorem allLexical_cons {token : Token} {word : List Token} :
    AllLexical (token :: word) ↔ token.Lexical ∧ AllLexical word :=
  List.forall_mem_cons

@[simp]
theorem allLexical_append {first second : List Token} :
    AllLexical (first ++ second) ↔ AllLexical first ∧ AllLexical second :=
  List.forall_mem_append

theorem AllLexical.enclose {word : List Token} (lexical : AllLexical word) (alone : Bool) :
    AllLexical (Slate.enclose alone word) := by
  cases alone with
  | true => exact lexical
  | false => simp [Slate.enclose, lexical, Token.Lexical]

theorem UnaryOp.lexical_sign (op : UnaryOp) : op.sign.Lexical := by
  cases op <;> trivial

theorem BinaryOp.lexical_sign (op : BinaryOp) : op.sign.Lexical := by
  cases op <;> trivial

mutual

theorem Expr.allLexical_print (bare : Bool) :
    (value : Expr) → value.Spellable → AllLexical (value.print bare)
  | .literal value, spellable => allLexical_cons.2 ⟨spellable, allLexical_nil⟩
  | .unary op operand, spellable => by
      have operandLexical := operand.allLexical_print bare spellable
      simp [Expr.print, Expr.asOperand, op.lexical_sign, operandLexical.enclose]
  | .binary op left right, spellable => by
      have leftLexical := left.allLexical_print bare spellable.1
      have rightLexical := right.allLexical_print bare spellable.2
      simp [Expr.print, Expr.asOperand, op.lexical_sign, leftLexical.enclose, rightLexical.enclose]
  | .select condition accepted rejected, spellable => by
      have conditionLexical := condition.allLexical_print bare spellable.1
      have acceptedLexical := accepted.allLexical_print bare spellable.2.1
      have rejectedLexical := rejected.allLexical_print bare spellable.2.2
      simp [Expr.print, Expr.asOperand, Token.Lexical, conditionLexical.enclose,
        acceptedLexical.enclose, rejectedLexical.enclose]
  | .reference ref, spellable => ref.allLexical_print bare spellable

theorem Ref.allLexical_print (bare : Bool) :
    (ref : Ref) → ref.Spellable → AllLexical (ref.print bare)
  | .plain name, spellable => allLexical_cons.2 ⟨spellable, allLexical_nil⟩
  | .indexed base index, spellable => by
      have baseLexical := base.allLexical_print bare spellable.1
      have indexLexical := index.allLexical_print bare spellable.2
      simp [Ref.print, Expr.asIndex, Token.Lexical, baseLexical, indexLexical.enclose]

end

theorem isVariableName_keyword :
    ∀ keyword ∈ ["if", "else", "while"], Token.IsVariableName keyword := by
  intro keyword known
  simp only [List.mem_cons, List.not_mem_nil, or_false] at known
  rcases known with rfl | rfl | rfl <;> exact Token.isVariableName_of_all (by decide) (by decide)

mutual

theorem Stmt.allLexical_print (bare : Bool) :
    (statement : Stmt) → statement.Spellable → AllLexical (statement.print bare)
  | .block body, spellable => by
      have bodyLexical := Stmt.allLexical_printAll bare body spellable
      simp [Stmt.print, Token.Lexical, bodyLexical]
  | .assign target value, spellable => by
      have targetLexical := target.allLexical_print bare spellable.1
      have valueLexical := value.allLexical_print bare spellable.2
      simp [Stmt.print, Token.Lexical, targetLexical, valueLexical]
  | .branch condition accepted rejected, spellable => by
      have conditionLexical := condition.allLexical_print bare spellable.1
      have acceptedLexical := accepted.allLexical_print bare spellable.2.1
      have rejectedLexical := rejected.allLexical_print bare spellable.2.2
      simp [Stmt.print, isVariableName_keyword, Token.Lexical, conditionLexical, acceptedLexical,
        rejectedLexical]
  | .loop condition body, spellable => by
      have conditionLexical := condition.allLexical_print bare spellable.1
      have bodyLexical := body.allLexical_print bare spellable.2
      simp [Stmt.print, isVariableName_keyword, Token.Lexical, conditionLexical, bodyLexical]

theorem Stmt.allLexical_printAll (bare : Bool) :
    (body : List Stmt) → Stmt.AllSpellable body → AllLexical (Stmt.printAll bare body)
  | [], _ => allLexical_nil
  | statement :: rest, spellable =>
      allLexical_append.2 ⟨statement.allLexical_print bare spellable.1,
        Stmt.allLexical_printAll bare rest spellable.2⟩

end

/-- Definitions in the order in which they are written down, and the statements behind them that
belong to no procedure. -/
structure Listing where
  definitions : List (String × Stmt)
  main : List Stmt

namespace Listing

def definitionTokens (bare : Bool) (defined : String × Stmt) : List Token :=
  .procedure defined.1 :: .colon :: defined.2.print bare

def tokens (bare : Bool) (listing : Listing) : List Token :=
  listing.definitions.flatMap (definitionTokens bare) ++ Stmt.printAll bare listing.main

/-- What a name stands for at the end: its last definition, or the block of the statements that
belong to no procedure. -/
def find? (listing : Listing) (name : String) : Option Stmt :=
  if listing.main ≠ [] ∧ name = Program.mainName then some (.block listing.main)
  else (listing.definitions.reverse.find? fun defined => defined.1 = name).map Prod.snd

structure Writable (listing : Listing) : Prop where
  definitions : ∀ defined ∈ listing.definitions, defined.2.Writable
  main : Stmt.AllWritable listing.main

structure Spellable (listing : Listing) : Prop where
  names : ∀ defined ∈ listing.definitions, Token.IsProcedureName defined.1
  definitions : ∀ defined ∈ listing.definitions, defined.2.Spellable
  main : Stmt.AllSpellable listing.main

/-- The definitions entered one after the other, and then the main program. -/
def program (listing : Listing) : Program :=
  enterMain
    (listing.definitions.foldl (fun table defined => table.define defined.1 defined.2) .empty)
    listing.main

theorem find?_foldl_define
    (definitions : List (String × Stmt)) (program : Program) (name : String) :
    (definitions.foldl (fun table defined => table.define defined.1 defined.2) program).find? name =
      ((definitions.reverse.find? fun defined => defined.1 = name).map Prod.snd).or
        (program.find? name) := by
  induction definitions generalizing program with
  | nil => rfl
  | cons defined definitions inductionHypothesis =>
      rw [List.foldl_cons, inductionHypothesis, Program.find?_define, List.reverse_cons,
        List.find?_append, List.find?_singleton]
      by_cases same : defined.1 = name
      · simp [same]
      · simp [same]

theorem find?_program (listing : Listing) (name : String) :
    listing.program.find? name = listing.find? name := by
  have definitions := find?_foldl_define listing.definitions .empty name
  rw [Program.find?_empty, Option.or_none] at definitions
  rw [program, find?, enterMain, ← definitions]
  by_cases noMain : listing.main = []
  · simp [noMain]
  · by_cases isMain : name = Program.mainName
    · simp [noMain, isMain, Program.find?_define]
    · simp [noMain, isMain, Ne.symm isMain, Program.find?_define]

theorem allLexical_tokens
    {listing : Listing} (spellable : listing.Spellable) (bare : Bool) :
    AllLexical (listing.tokens bare) := by
  have mainLexical := Stmt.allLexical_printAll bare listing.main spellable.main
  refine allLexical_append.2 ⟨?_, mainLexical⟩
  intro token member
  obtain ⟨defined, isDefinition, member⟩ := List.mem_flatMap.1 member
  have bodyLexical := defined.2.allLexical_print bare (spellable.definitions defined isDefinition)
  have nameLexical : (Token.procedure defined.1).Lexical := spellable.names defined isDefinition
  have lexical : AllLexical (definitionTokens bare defined) :=
    allLexical_cons.2 ⟨nameLexical, allLexical_cons.2 ⟨trivial, bodyLexical⟩⟩
  exact lexical token member

/-- The statements of a listing pass as statements outside all blocks. -/
theorem statement_print_passes
    {bare : Bool} {limit : Nat} {statement : Stmt} (writable : statement.Writable)
    (fits : (statement.print bare).length ≤ limit) (program : Program) :
    Passes (Grammar.statement limit (.ofProgram program)) 0 (statement.print bare) statement :=
  fun rest => Stmt.print_passes statement writable fits (Nat.le_refl _) rest

theorem length_print_le
    {definitions : List (String × Stmt)} {defined : String × Stmt} (member : defined ∈ definitions)
    (bare : Bool) :
    (defined.2.print bare).length ≤ (definitions.flatMap (definitionTokens bare)).length := by
  have part : definitionTokens bare defined ∈ definitions.map (definitionTokens bare) :=
    List.mem_map_of_mem member
  have bound := (List.sublist_flatten_of_mem part).length_le
  simp only [definitionTokens, List.length_cons] at bound
  rw [List.flatMap_def]
  exact Nat.le_trans (by omega) bound

theorem ofTokens_tokens
    {listing : Listing} (writable : listing.Writable) {bare : Bool} {limit : Nat}
    (fits : (listing.tokens bare).length ≤ limit) :
    Program.ofTokens limit (listing.tokens bare) = .ok listing.program := by
  rw [tokens, List.length_append] at fits
  let definitions : List (String × List Token × Stmt) :=
    listing.definitions.map fun defined => (defined.1, defined.2.print bare, defined.2)
  have each : ∀ defined ∈ definitions, ∀ program,
      Passes (Grammar.statement limit (.ofProgram program)) 0 defined.2.1 defined.2.2 := by
    intro defined member program
    obtain ⟨original, isDefinition, rfl⟩ := List.mem_map.1 member
    have bound := length_print_le isDefinition bare
    exact statement_print_passes (writable.definitions original isDefinition) (by omega) program
  have mainFits := Nat.le_trans (Nat.le_add_left _ _) fits
  have mainEach (program : Program) :
      PassesEach (Grammar.statement limit (.ofProgram program)) 0
        (Stmt.printedParts bare listing.main) :=
    Stmt.printedParts_pass listing.main writable.main mainFits (Nat.le_refl _)
  have run := ofTokens_pass each mainEach
  rw [Stmt.flatMap_printedParts, Stmt.map_printedParts, List.flatMap_map, List.foldl_map] at run
  exact run

/-- Parsing undoes printing. Under every limit from the number of tokens on, the tokens of a listing
that can be written down make the program in which every name stands for what the listing says, and
so does the source text of the tokens if they can be spelled. -/
theorem parses_to_itself
    (listing : Listing) (bare : Bool) (writable : listing.Writable) :
    ∃ program, (∀ name, program.find? name = listing.find? name) ∧
      ∀ limit, (listing.tokens bare).length ≤ limit →
        Program.ofTokens limit (listing.tokens bare) = .ok program ∧
          (listing.Spellable →
            Program.ofSource limit (" ".intercalate ((listing.tokens bare).map Token.spelling)) =
              .ok program) := by
  refine ⟨listing.program, find?_program listing, fun limit fits => ?_⟩
  have run := ofTokens_tokens writable fits
  refine ⟨run, fun spellable => ?_⟩
  have scanned := Token.scan_spellings (allLexical_tokens spellable bare)
  unfold Program.ofSource
  rw [scanned]
  change (Program.ofTokens limit (listing.tokens bare)).mapError Failure.parse = _
  rw [run]
  rfl

/-- A procedure with two definitions, of which the second has a block and an index, and a main
program in which an `if` ends in a product of a sum. -/
def twiceDefined : Listing where
  definitions :=
    [("A", .assign (.plain "x") (.literal 1)),
      ("A", .loop (.binary .less (.reference (.plain "x")) (.literal 3))
        (.block [.assign (.indexed (.plain "a") (.reference (.plain "x")))
          (.unary .not (.literal 0))]))]
  main :=
    [.branch (.reference (.plain "x")) (.block [])
      (.assign (.plain "y")
        (.binary .multiply (.binary .add (.reference (.plain "x")) (.literal 1)) (.literal 2)))]

theorem parses_to_itself_twiceDefined :
    twiceDefined.Writable ∧ twiceDefined.Spellable ∧
      ∃ program,
        Program.ofSource 40
          ("A : x = 1 ; A : while ( x < 3 ) \x7b a @ x = ! 0 ; \x7d " ++
            "if ( x ) \x7b \x7d else y = ( x + 1 ) * 2 ;") = .ok program ∧
          program.find? "A" = some (.loop (.binary .less (.reference (.plain "x")) (.literal 3))
            (.block [.assign (.indexed (.plain "a") (.reference (.plain "x")))
              (.unary .not (.literal 0))])) := by
  have writable : twiceDefined.Writable := by
    constructor <;> simp [twiceDefined, Stmt.Writable, Stmt.AllWritable, Expr.NoNegate,
      Ref.NoNegate, Ref.base]
  have isName : Token.IsProcedureName "A" :=
    ⟨'A', [], rfl, (Token.isUpper_iff 'A').1 rfl, List.forall_mem_nil _⟩
  have letters : ∀ name ∈ ["a", "x", "y"], Token.IsVariableName name := by
    intro name member
    simp only [List.mem_cons, List.not_mem_nil, or_false] at member
    rcases member with rfl | rfl | rfl <;>
      exact Token.isVariableName_of_all (by decide) (by decide)
  have spellable : twiceDefined.Spellable := by
    constructor <;> simp [twiceDefined, Stmt.Spellable, Stmt.AllSpellable, Expr.Spellable,
      Ref.Spellable, isName, letters]
  obtain ⟨program, finds, parses⟩ := parses_to_itself twiceDefined true writable
  have run := (parses 40 (by decide)).2 spellable
  have text : " ".intercalate ((twiceDefined.tokens true).map Token.spelling) =
      "A : x = 1 ; A : while ( x < 3 ) \x7b a @ x = ! 0 ; \x7d " ++
        "if ( x ) \x7b \x7d else y = ( x + 1 ) * 2 ;" := by
    decide +kernel
  rw [text] at run
  exact ⟨writable, spellable, program, run, finds "A"⟩

end Listing

end Slate
