import Slate.Tree

/-!
Outlines show a tree over several lines. Every node opens a parenthesis and lists its parts below,
each part one bar further in and with a comma between parts. An expression, a reference, a block
and an assignment close on a line of their own; a branch and a loop close right after their last
part.
-/

set_option autoImplicit false

namespace Slate

inductive Outline
  | leaf (text : String)
  | node (label : String) (closesBelow : Bool) (parts : List Outline)

namespace Outline

/-- A text keeps its own line breaks, and each of them returns to the current margin. -/
def reflow (newline text : String) : String :=
  String.ofList (text.toList.flatMap fun character =>
    if character = '\n' then newline.toList else [character])

mutual

/-- Writes an outline whose lines are divided by `newline`: a line break and the margin so far. -/
def render (newline : String) : Outline → String
  | .leaf text => reflow newline text
  | .node label closesBelow parts =>
      label ++ "(" ++ newline ++ renderParts newline parts
        ++ (if closesBelow then newline else "") ++ ")"

def renderParts (newline : String) : List Outline → String
  | [] => ""
  | [part] => "| " ++ part.render (newline ++ "| ")
  | part :: next :: rest =>
      "| " ++ part.render (newline ++ "| ") ++ "," ++ newline ++ renderParts newline (next :: rest)

end

end Outline

mutual

def Expr.outline : Expr → Outline
  | .literal value => .leaf ("Expr(" ++ value.decimal ++ ")")
  | .unary op operand => .node "Expr" true [.leaf op.spelling, operand.outline]
  | .binary op left right => .node "Expr" true [.leaf op.spelling, left.outline, right.outline]
  | .select condition accepted rejected =>
      .node "Expr" true [.leaf "?", condition.outline, accepted.outline, rejected.outline]
  | .reference ref => ref.outline

def Ref.outline : Ref → Outline
  | .plain name => .leaf ("Var(" ++ name ++ ")")
  | .indexed base index => .node "Ref" true [base.outline, index.outline]

end

mutual

def Stmt.outline : Stmt → Outline
  | .block body => .node "Block" true (Stmt.outlineAll body)
  | .assign target value => .node "Assignment" true [target.outline, value.outline]
  | .branch condition accepted rejected =>
      .node "If" false [condition.outline, accepted.outline, rejected.outline]
  | .loop condition body => .node "While" false [condition.outline, body.outline]

def Stmt.outlineAll : List Stmt → List Outline
  | [] => []
  | statement :: rest => statement.outline :: Stmt.outlineAll rest

end

/-- The text of an outline that starts at the left margin. -/
def Outline.text (outline : Outline) : String :=
  outline.render "\n"

end Slate
