import Slate.Program
import Slate.Proofs.Printing.SelfDelimiting

/-!
Outlines lose nothing of a tree. A tree can be told by its outline, since labels, the number of
parts and the spellings of operators and numbers are different where the trees are. If the names are
names of the language, its outline can be told by its text. A program lists its procedures by name,
and a name ends at the colon behind it, so a program can be told by its text as well.
-/

set_option autoImplicit false

namespace Slate

theorem Numeral.ofInt_injective {first second : Int} (same : ofInt first = ofInt second) :
    first = second := by
  have digits_injective {size other : Nat} (same : Nat.toDigits 10 size = Nat.toDigits 10 other) :
      size = other := by
    have sameValue := congrArg (Nat.ofDigitChars 10 · 0) same
    simpa only [Nat.ofDigitChars_toDigits, Nat.reduceLT, Nat.le_refl] using sameValue
  have noMinus {size other : Nat} : '-' :: Nat.toDigits 10 size ≠ Nat.toDigits 10 other := by
    intro same
    have digit : '-'.isDigit = true :=
      Nat.isDigit_of_mem_toDigits (by decide) (by decide) (same ▸ List.mem_cons_self)
    cases digit
  cases first with
  | ofNat size =>
      cases second with
      | ofNat other => exact congrArg Int.ofNat (digits_injective same)
      | negSucc other => exact absurd same.symm noMinus
  | negSucc size =>
      cases second with
      | ofNat other => exact absurd same noMinus
      | negSucc other =>
          have sameSize := digits_injective (List.cons.inj same).2
          exact congrArg Int.negSucc (Nat.succ.inj sameSize)

theorem Word.decimal_injective {first second : Word} (same : first.decimal = second.decimal) :
    first = second :=
  Int64.toInt_inj.1 (Numeral.ofInt_injective (String.ofList_injective same))

theorem UnaryOp.spelling_injective {first second : UnaryOp}
    (same : first.spelling = second.spelling) : first = second := by
  cases first <;> cases second <;> first | rfl | exact absurd same (by decide)

theorem BinaryOp.spelling_injective {first second : BinaryOp}
    (same : first.spelling = second.spelling) : first = second := by
  cases first <;> cases second <;> first | rfl | exact absurd same (by decide)

theorem enclosed_injective {tag first second : String}
    (same : tag ++ first ++ ")" = tag ++ second ++ ")") : first = second := by
  have sameText := congrArg String.toList same
  simp only [String.toList_append, List.append_assoc, List.append_cancel_left_eq,
    List.append_cancel_right_eq] at sameText
  exact String.toList_inj.1 sameText

theorem Ref.outline_ne_literal (ref : Ref) (value : Word) :
    ref.outline ≠ (Expr.literal value).outline := by
  cases ref with
  | indexed base index => nofun
  | plain name =>
      intro same
      have sameFirst := congrArg (fun text : String => text.toList.head?) (Outline.leaf.inj same)
      simp at sameFirst

theorem Ref.outline_ne_node (ref : Ref) (closesBelow : Bool) (parts : List Outline) :
    ref.outline ≠ .node "Expr" closesBelow parts := by
  cases ref <;> simp [outline]

mutual

theorem Expr.outline_injective (first second : Expr) (same : first.outline = second.outline) :
    first = second := by
  cases first with
  | literal value =>
      cases second with
      | literal other =>
          have sameDecimal := enclosed_injective (Outline.leaf.inj same)
          rw [Word.decimal_injective sameDecimal]
      | reference ref => exact absurd same.symm (ref.outline_ne_literal value)
      | unary | binary | select => cases same
  | unary op operand =>
      cases second with
      | unary otherOp otherOperand =>
          simp only [Expr.outline, Outline.node.injEq, List.cons.injEq, Outline.leaf.injEq,
            true_and, and_true] at same
          rw [UnaryOp.spelling_injective same.1, operand.outline_injective otherOperand same.2]
      | reference ref => exact absurd same.symm (ref.outline_ne_node _ _)
      | literal | binary | select => simp [Expr.outline] at same
  | binary op left right =>
      cases second with
      | binary otherOp otherLeft otherRight =>
          simp only [Expr.outline, Outline.node.injEq, List.cons.injEq, Outline.leaf.injEq,
            true_and, and_true] at same
          rw [BinaryOp.spelling_injective same.1, left.outline_injective otherLeft same.2.1,
            right.outline_injective otherRight same.2.2]
      | reference ref => exact absurd same.symm (ref.outline_ne_node _ _)
      | literal | unary | select => simp [Expr.outline] at same
  | select condition accepted rejected =>
      cases second with
      | select otherCondition otherAccepted otherRejected =>
          simp only [Expr.outline, Outline.node.injEq, List.cons.injEq, true_and, and_true] at same
          rw [condition.outline_injective otherCondition same.1,
            accepted.outline_injective otherAccepted same.2.1,
            rejected.outline_injective otherRejected same.2.2]
      | reference ref => exact absurd same.symm (ref.outline_ne_node _ _)
      | literal | unary | binary => simp [Expr.outline] at same
  | reference ref =>
      cases second with
      | reference other => rw [ref.outline_injective other same]
      | literal value => exact absurd same (ref.outline_ne_literal value)
      | unary | binary | select => exact absurd same (ref.outline_ne_node _ _)

theorem Ref.outline_injective (first second : Ref) (same : first.outline = second.outline) :
    first = second := by
  cases first with
  | plain name =>
      cases second with
      | plain other => exact congrArg Ref.plain (enclosed_injective (Outline.leaf.inj same))
      | indexed => cases same
  | indexed base index =>
      cases second with
      | plain => cases same
      | indexed otherBase otherIndex =>
          simp only [Ref.outline, Outline.node.injEq, List.cons.injEq, true_and, and_true] at same
          rw [base.outline_injective otherBase same.1, index.outline_injective otherIndex same.2]

end

mutual

theorem Stmt.outline_injective (first second : Stmt) (same : first.outline = second.outline) :
    first = second := by
  cases first with
  | block body =>
      cases second with
      | block other =>
          simp only [Stmt.outline, Outline.node.injEq, true_and] at same
          rw [Stmt.outlineAll_injective body other same]
      | assign | branch | loop => simp [Stmt.outline] at same
  | assign target value =>
      cases second with
      | assign otherTarget otherValue =>
          simp only [Stmt.outline, Outline.node.injEq, List.cons.injEq, true_and, and_true] at same
          rw [target.outline_injective otherTarget same.1,
            value.outline_injective otherValue same.2]
      | block | branch | loop => simp [Stmt.outline] at same
  | branch condition accepted rejected =>
      cases second with
      | branch otherCondition otherAccepted otherRejected =>
          simp only [Stmt.outline, Outline.node.injEq, List.cons.injEq, true_and, and_true] at same
          rw [condition.outline_injective otherCondition same.1,
            accepted.outline_injective otherAccepted same.2.1,
            rejected.outline_injective otherRejected same.2.2]
      | block | assign | loop => simp [Stmt.outline] at same
  | loop condition body =>
      cases second with
      | loop otherCondition otherBody =>
          simp only [Stmt.outline, Outline.node.injEq, List.cons.injEq, true_and, and_true] at same
          rw [condition.outline_injective otherCondition same.1,
            body.outline_injective otherBody same.2]
      | block | assign | branch => simp [Stmt.outline] at same

theorem Stmt.outlineAll_injective
    (first second : List Stmt) (same : Stmt.outlineAll first = Stmt.outlineAll second) :
    first = second := by
  cases first with
  | nil =>
      cases second with
      | nil => rfl
      | cons => cases same
  | cons statement rest =>
      cases second with
      | nil => cases same
      | cons other others =>
          obtain ⟨sameHead, sameRest⟩ := List.cons.inj same
          rw [statement.outline_injective other sameHead,
            Stmt.outlineAll_injective rest others sameRest]

end

mutual

/-- The names of the variables of an expression. -/
def Expr.names : Expr → List String
  | .literal _ => []
  | .unary _ operand => operand.names
  | .binary _ left right => left.names ++ right.names
  | .select condition accepted rejected =>
      condition.names ++ (accepted.names ++ rejected.names)
  | .reference ref => ref.names

def Ref.names : Ref → List String
  | .plain name => [name]
  | .indexed base index => base.names ++ index.names

end

mutual

def Stmt.names : Stmt → List String
  | .block body => Stmt.namesAll body
  | .assign target value => target.names ++ value.names
  | .branch condition accepted rejected =>
      condition.names ++ (accepted.names ++ rejected.names)
  | .loop condition body => condition.names ++ body.names

def Stmt.namesAll : List Stmt → List String
  | [] => []
  | statement :: rest => statement.names ++ Stmt.namesAll rest

end

/-- All of them are variable names of the language. -/
def Named (names : List String) : Prop :=
  ∀ name ∈ names, Token.IsVariableName name

@[simp]
theorem named_append {first second : List String} :
    Named (first ++ second) ↔ Named first ∧ Named second :=
  List.forall_mem_append

namespace Outline

theorem plain_of_all {text : List Char} (all : text.all isPlain = true) : Plain text :=
  List.all_eq_true.1 all

/-- Characters of a class without commas, line breaks and parentheses. -/
theorem isPlain_of_class
    {belongs : Char → Bool} {character : Char}
    (excludes : ['(', ')', ',', '\n'].any belongs = false)
    (inside : belongs character = true) : isPlain character = true := by
  rw [isPlain, decide_eq_true_eq]
  intro isMark
  exact List.any_eq_false.1 excludes character isMark inside

theorem legible_tagged
    {opening body : String} (tag : List Char) (isOpening : opening.toList = tag ++ ['('])
    (tagPlain : Plain tag) (bodyPlain : Plain body.toList) (nonempty : body.toList ≠ []) :
    Legible (.leaf (opening ++ body ++ ")")) := by
  obtain ⟨first, rest, isBody⟩ := List.exists_cons_of_ne_nil nonempty
  refine .tagged ⟨tag, first, rest, ?_, tagPlain, isBody ▸ bodyPlain⟩
  simp [isOpening, isBody]

theorem plain_ofInt (value : Int) : Plain (Numeral.ofInt value) := by
  have plainDigits (size : Nat) : Plain (Nat.toDigits 10 size) := by
    intro character member
    have digit : character.isDigit = true :=
      Nat.isDigit_of_mem_toDigits (by decide) (by decide) member
    exact isPlain_of_class rfl digit
  cases value with
  | ofNat size => exact plainDigits size
  | negSucc size => exact List.forall_mem_cons.2 ⟨rfl, plainDigits (size + 1)⟩

theorem ofInt_ne_nil (value : Int) : Numeral.ofInt value ≠ [] := by
  cases value with
  | ofNat size => exact Nat.toDigits_ne_nil
  | negSucc size => exact List.cons_ne_nil _ _

theorem legible_literal (value : Word) : Legible (Expr.literal value).outline := by
  have isDecimal : value.decimal.toList = Numeral.ofInt value.toInt := String.toList_ofList
  refine legible_tagged "Expr".toList rfl (plain_of_all rfl) ?_ ?_
  · exact isDecimal ▸ plain_ofInt value.toInt
  · exact isDecimal ▸ ofInt_ne_nil value.toInt

theorem legible_variable {name : String} (isName : Token.IsVariableName name) :
    Legible (Ref.plain name).outline := by
  refine legible_tagged "Var".toList rfl (plain_of_all rfl) (fun character member => ?_) isName.1
  have letter := (Token.isNameChar_iff character).2 (isName.2 character member)
  exact isPlain_of_class rfl letter

theorem legible_unarySign (op : UnaryOp) : Legible (.leaf op.spelling) := by
  cases op <;> exact .sign (plain_of_all rfl)

theorem legible_binarySign (op : BinaryOp) : Legible (.leaf op.spelling) := by
  cases op <;> exact .sign (plain_of_all rfl)

end Outline

open Outline

mutual

theorem Expr.legible : (expr : Expr) → Named expr.names → Legible expr.outline
  | .literal value, _ => legible_literal value
  | .unary op operand, named => by
      refine .node (plain_of_all rfl) ?_
      simp only [List.forall_mem_cons]
      exact ⟨legible_unarySign op, operand.legible named, nofun⟩
  | .binary op left right, named => by
      obtain ⟨leftNamed, rightNamed⟩ := named_append.1 named
      refine .node (plain_of_all rfl) ?_
      simp only [List.forall_mem_cons]
      exact ⟨legible_binarySign op, left.legible leftNamed, right.legible rightNamed, nofun⟩
  | .select condition accepted rejected, named => by
      obtain ⟨conditionNamed, branchesNamed⟩ := named_append.1 named
      obtain ⟨acceptedNamed, rejectedNamed⟩ := named_append.1 branchesNamed
      refine .node (plain_of_all rfl) ?_
      simp only [List.forall_mem_cons]
      exact ⟨.sign (plain_of_all rfl), condition.legible conditionNamed,
        accepted.legible acceptedNamed, rejected.legible rejectedNamed, nofun⟩
  | .reference ref, named => ref.legible named

theorem Ref.legible : (ref : Ref) → Named ref.names → Legible ref.outline
  | .plain name, named => legible_variable (named name List.mem_cons_self)
  | .indexed base index, named => by
      obtain ⟨baseNamed, indexNamed⟩ := named_append.1 named
      refine .node (plain_of_all rfl) ?_
      simp only [List.forall_mem_cons]
      exact ⟨base.legible baseNamed, index.legible indexNamed, nofun⟩

end

mutual

theorem Stmt.legible : (statement : Stmt) → Named statement.names → Legible statement.outline
  | .block body, named => .node (plain_of_all rfl) (Stmt.legibleAll body named)
  | .assign target value, named => by
      obtain ⟨targetNamed, valueNamed⟩ := named_append.1 named
      refine .node (plain_of_all rfl) ?_
      simp only [List.forall_mem_cons]
      exact ⟨target.legible targetNamed, value.legible valueNamed, nofun⟩
  | .branch condition accepted rejected, named => by
      obtain ⟨conditionNamed, branchesNamed⟩ := named_append.1 named
      obtain ⟨acceptedNamed, rejectedNamed⟩ := named_append.1 branchesNamed
      refine .node (plain_of_all rfl) ?_
      simp only [List.forall_mem_cons]
      exact ⟨condition.legible conditionNamed, accepted.legible acceptedNamed,
        rejected.legible rejectedNamed, nofun⟩
  | .loop condition body, named => by
      obtain ⟨conditionNamed, bodyNamed⟩ := named_append.1 named
      refine .node (plain_of_all rfl) ?_
      simp only [List.forall_mem_cons]
      exact ⟨condition.legible conditionNamed, body.legible bodyNamed, nofun⟩

theorem Stmt.legibleAll :
    (body : List Stmt) → Named (Stmt.namesAll body) →
      ∀ part ∈ Stmt.outlineAll body, Legible part
  | [], _ => nofun
  | statement :: rest, named => by
      obtain ⟨statementNamed, restNamed⟩ := named_append.1 named
      exact List.forall_mem_cons.2
        ⟨statement.legible statementNamed, Stmt.legibleAll rest restNamed⟩

end

namespace Program

/-- The procedures have names of the language, and so have the variables in their bodies. -/
def Named (program : Program) : Prop :=
  ∀ name body, program.find? name = some body →
    Token.IsProcedureName name ∧ Slate.Named body.names

/-- The text of one procedure. -/
def entry (procedure : String × Stmt) : List Char :=
  procedure.1.toList ++ (":\n| ".toList ++ (procedure.2.outline.render "\n| ").toList)

/-- The texts of procedures, each on a new line. -/
def entries (procedures : List (String × Stmt)) : List Char :=
  procedures.flatMap fun procedure => '\n' :: entry procedure

/-- The name has no colon, and the outline of the body can be read off. -/
def IsEntry (procedure : String × Stmt) : Prop :=
  ':' ∉ procedure.1.toList ∧ Legible procedure.2.outline

theorem toList_text (program : Program) :
    program.text.toList = ['\n'].intercalate (program.procedures.toList.map entry) := by
  rw [text, String.toList_intercalate, List.map_map]
  refine congrArg (['\n'].intercalate ·) (List.map_congr_left fun procedure _ => ?_)
  simp [entry]

theorem intercalate_eq_entries {procedures : List (String × Stmt)} (nonempty : procedures ≠ []) :
    '\n' :: ['\n'].intercalate (procedures.map entry) = entries procedures := by
  induction procedures with
  | nil => exact absurd rfl nonempty
  | cons procedure rest inductionHypothesis =>
      cases rest with
      | nil => simp [entries]
      | cons next rest =>
          have further := inductionHypothesis (List.cons_ne_nil next rest)
          rw [entries, List.flatMap_cons, ← entries, ← further]
          simp [List.intercalate_cons_cons]

theorem ends_entries (procedures : List (String × Stmt)) : Ends (entries procedures) := by
  cases procedures with
  | nil => nofun
  | cons procedure rest =>
      rintro _ ⟨⟩
      simp

theorem entry_injective
    {first second : String × Stmt} {rest others : List Char} (isEntry : IsEntry first)
    (isEntryToo : IsEntry second) (ends : Ends rest) (endsToo : Ends others)
    (same : entry first ++ rest = entry second ++ others) : first = second ∧ rest = others := by
  have noColon {name : String} (none : ':' ∉ name.toList) :
      ∀ character ∈ name.toList, (character != ':') = true := by
    intro character member
    exact bne_iff_ne.2 fun isColon => none (isColon ▸ member)
  have colonStops {rest : List Char} :
      ∀ character ∈ (":\n| ".toList ++ rest).head?, (character != ':') = false := by
    rintro _ ⟨⟩
    rfl
  simp only [entry, List.append_assoc] at same
  obtain ⟨sameName, sameBody⟩ := append_injective (noColon isEntry.1) (noColon isEntryToo.1)
    colonStops colonStops same
  have isNewline : IsNewline "\n| " := ⟨['|', ' '], rfl⟩
  obtain ⟨sameOutline, sameRest⟩ := isEntry.2.selfDelimiting isEntryToo.2 isNewline ends endsToo
    (List.append_cancel_left sameBody)
  exact ⟨Prod.ext (String.toList_inj.1 sameName) (Stmt.outline_injective _ _ sameOutline), sameRest⟩

theorem entries_injective
    {procedures others : List (String × Stmt)}
    (areEntries : ∀ procedure ∈ procedures, IsEntry procedure)
    (areEntriesToo : ∀ procedure ∈ others, IsEntry procedure)
    (same : entries procedures = entries others) : procedures = others := by
  induction procedures generalizing others with
  | nil =>
      cases others with
      | nil => rfl
      | cons => cases same
  | cons procedure rest inductionHypothesis =>
      cases others with
      | nil => cases same
      | cons other others =>
          obtain ⟨isEntry, restEntries⟩ := List.forall_mem_cons.1 areEntries
          obtain ⟨isEntryToo, othersEntries⟩ := List.forall_mem_cons.1 areEntriesToo
          simp only [entries, List.flatMap_cons, List.cons_append, List.cons.injEq,
            true_and] at same
          obtain ⟨rfl, sameRest⟩ := entry_injective isEntry isEntryToo (ends_entries rest)
            (ends_entries others) same
          rw [inductionHypothesis restEntries othersEntries sameRest]

theorem intercalate_ne_nil {procedures : List (String × Stmt)} (nonempty : procedures ≠ []) :
    ['\n'].intercalate (procedures.map entry) ≠ [] := by
  intro isNil
  have noEntries := intercalate_eq_entries nonempty
  obtain ⟨procedure, rest, rfl⟩ := List.exists_cons_of_ne_nil nonempty
  rw [isNil] at noEntries
  simp [entries, entry] at noEntries

theorem intercalate_injective
    {procedures others : List (String × Stmt)}
    (areEntries : ∀ procedure ∈ procedures, IsEntry procedure)
    (areEntriesToo : ∀ procedure ∈ others, IsEntry procedure)
    (same : ['\n'].intercalate (procedures.map entry) =
      ['\n'].intercalate (others.map entry)) : procedures = others := by
  -- An entry is never empty, so only a program without procedures has an empty text.
  by_cases none : procedures = []
  · by_cases noOther : others = []
    · rw [none, noOther]
    · rw [none] at same
      exact absurd same.symm (intercalate_ne_nil noOther)
  · by_cases noOther : others = []
    · rw [noOther] at same
      exact absurd same (intercalate_ne_nil none)
    · refine entries_injective areEntries areEntriesToo ?_
      rw [← intercalate_eq_entries none, ← intercalate_eq_entries noOther, same]

theorem not_colon_of_isProcedureName {name : String} (isName : Token.IsProcedureName name) :
    ':' ∉ name.toList := by
  obtain ⟨first, rest, isAll, capital, letters⟩ := isName
  rw [isAll, List.mem_cons, not_or]
  constructor
  · rintro rfl
    exact absurd capital (by decide)
  · intro member
    exact absurd (letters ':' member) (by decide)

theorem Named.isEntry {program : Program} (named : program.Named) :
    ∀ procedure ∈ program.procedures.toList, IsEntry procedure := by
  rintro ⟨name, body⟩ member
  have isFound := Std.TreeMap.mem_toList_iff_getElem?_eq_some.1 member
  obtain ⟨isName, bodyNamed⟩ := named name body isFound
  exact ⟨not_colon_of_isProcedureName isName, body.legible bodyNamed⟩

theorem text_eq_iff
    {program other : Program} (named : program.Named) (namedToo : other.Named) :
    program.text = other.text ↔ ∀ name, program.find? name = other.find? name := by
  constructor
  · intro same
    have sameText := congrArg String.toList same
    rw [toList_text, toList_text] at sameText
    have sameList := intercalate_injective named.isEntry namedToo.isEntry sameText
    exact fun name => (Std.TreeMap.equiv_iff_toList_eq.2 sameList).getElem?_eq
  · intro same
    have equivalent := Std.TreeMap.Equiv.of_forall_constGet?_eq same
    rw [text, text, equivalent.toList_eq]

end Program

/-- Trees with names of the language have the same outline only if they are the same, and programs
with such names have the same text only if every name stands for the same statement in both. -/
theorem text_determines_tree :
    (∀ first second : Stmt, Named first.names → Named second.names →
      (first.outline.text = second.outline.text ↔ first = second)) ∧
    (∀ first second : Expr, Named first.names → Named second.names →
      (first.outline.text = second.outline.text ↔ first = second)) ∧
    (∀ first second : Ref, Named first.names → Named second.names →
      (first.outline.text = second.outline.text ↔ first = second)) ∧
    ∀ program other : Program, program.Named → other.Named →
      (program.text = other.text ↔ ∀ name, program.find? name = other.find? name) := by
  refine ⟨?_, ?_, ?_, fun program other named namedToo => Program.text_eq_iff named namedToo⟩
  · intro first second named namedToo
    rw [Outline.text_eq_iff (first.legible named) (second.legible namedToo)]
    exact ⟨first.outline_injective second, congrArg Stmt.outline⟩
  · intro first second named namedToo
    rw [Outline.text_eq_iff (first.legible named) (second.legible namedToo)]
    exact ⟨first.outline_injective second, congrArg Expr.outline⟩
  · intro first second named namedToo
    rw [Outline.text_eq_iff (first.legible named) (second.legible namedToo)]
    exact ⟨first.outline_injective second, congrArg Ref.outline⟩

/-- A program whose only procedure is named `A`. -/
def onlyProcedure (body : Stmt) : Program :=
  Program.empty.define "A" body

theorem named_onlyProcedure {body : Stmt} (named : Named body.names) :
    (onlyProcedure body).Named := by
  intro name other isFound
  rw [onlyProcedure, Program.find?_define, Program.find?_empty,
    Option.ite_none_right_eq_some] at isFound
  obtain ⟨rfl, ⟨⟩⟩ := isFound
  exact ⟨⟨'A', [], rfl, by decide, nofun⟩, named⟩

/-- An empty block is not a block of one, a negative number is not a negated one, and an index is
part of a reference. -/
theorem text_determines_tree_close :
    (Stmt.block []).outline.text ≠ (Stmt.block [.block []]).outline.text ∧
    (Expr.literal (-1)).outline.text ≠ (Expr.unary .negate (.literal 1)).outline.text ∧
    (Named ["a"] ∧ (Ref.plain "a").outline.text ≠
      (Ref.indexed (.plain "a") (.literal 0)).outline.text) ∧
    (onlyProcedure (.block [])).Named ∧ (onlyProcedure (.block [.block []])).Named ∧
      (onlyProcedure (.block [])).text ≠ (onlyProcedure (.block [.block []])).text := by
  have nothing : Named [] := nofun
  have small : Named ["a"] := by
    rintro _ (_ | ⟨_, ⟨⟩⟩)
    exact Token.isVariableName_of_all (by decide) rfl
  obtain ⟨ofStatements, ofExpressions, ofReferences, ofPrograms⟩ := text_determines_tree
  refine ⟨?_, ?_, ⟨small, ?_⟩, named_onlyProcedure nothing, named_onlyProcedure nothing, ?_⟩
  · exact mt (ofStatements (.block []) (.block [.block []]) nothing nothing).1 (by decide)
  · exact mt (ofExpressions (.literal (-1)) (.unary .negate (.literal 1)) nothing nothing).1
      (by decide)
  · exact mt (ofReferences (.plain "a") (.indexed (.plain "a") (.literal 0)) small small).1
      (by decide)
  · intro same
    have sameBodies := (ofPrograms (onlyProcedure (.block [])) (onlyProcedure (.block [.block []]))
      (named_onlyProcedure nothing) (named_onlyProcedure nothing)).1 same "A"
    simp [onlyProcedure, Program.find?_define] at sameBodies

end Slate
