import Slate.Operator

/-!
Trees of the language: expressions, references to storage slots and statements. A procedure call
has no node of its own, since the body of the procedure stands in its place.
-/

set_option autoImplicit false

namespace Slate

mutual

inductive Expr
  | literal (value : Word)
  | unary (op : UnaryOp) (operand : Expr)
  | binary (op : BinaryOp) (left right : Expr)
  | select (condition accepted rejected : Expr)
  | reference (ref : Ref)

/-- A slot is named by a variable, or by a base and one more index. -/
inductive Ref
  | plain (name : String)
  | indexed (base : Ref) (index : Expr)

end

deriving instance DecidableEq for Expr, Ref

inductive Stmt
  | block (body : List Stmt)
  | assign (target : Ref) (value : Expr)
  | branch (condition : Expr) (accepted rejected : Stmt)
  | loop (condition : Expr) (body : Stmt)

namespace Stmt

mutual

def decEq : (left right : Stmt) → Decidable (left = right)
  | .block body, .block other =>
      match decEqAll body other with
      | isTrue same => isTrue (by rw [same])
      | isFalse differ => isFalse (by simpa using differ)
  | .assign target value, .assign otherTarget otherValue =>
      if same : target = otherTarget ∧ value = otherValue then
        isTrue (by rw [same.1, same.2])
      else
        isFalse (by simpa using same)
  | .branch condition accepted rejected, .branch otherCondition otherAccepted otherRejected =>
      if same : condition = otherCondition then
        match decEq accepted otherAccepted, decEq rejected otherRejected with
        | isTrue sameAccepted, isTrue sameRejected =>
            isTrue (by rw [same, sameAccepted, sameRejected])
        | isFalse differ, _ => isFalse (by simp [differ])
        | _, isFalse differ => isFalse (by simp [differ])
      else
        isFalse (by simp [same])
  | .loop condition body, .loop otherCondition otherBody =>
      if same : condition = otherCondition then
        match decEq body otherBody with
        | isTrue sameBody => isTrue (by rw [same, sameBody])
        | isFalse differ => isFalse (by simp [differ])
      else
        isFalse (by simp [same])
  | .block _, .assign _ _ | .block _, .branch _ _ _ | .block _, .loop _ _
  | .assign _ _, .block _ | .assign _ _, .branch _ _ _ | .assign _ _, .loop _ _
  | .branch _ _ _, .block _ | .branch _ _ _, .assign _ _ | .branch _ _ _, .loop _ _
  | .loop _ _, .block _ | .loop _ _, .assign _ _ | .loop _ _, .branch _ _ _ =>
      isFalse (by simp)

def decEqAll : (left right : List Stmt) → Decidable (left = right)
  | [], [] => isTrue rfl
  | [], _ :: _ => isFalse (by simp)
  | _ :: _, [] => isFalse (by simp)
  | statement :: rest, other :: otherRest =>
      match decEq statement other, decEqAll rest otherRest with
      | isTrue same, isTrue sameRest => isTrue (by rw [same, sameRest])
      | isFalse differ, _ => isFalse (by simp [differ])
      | _, isFalse differ => isFalse (by simp [differ])

end

instance : DecidableEq Stmt :=
  decEq

end Stmt

end Slate
