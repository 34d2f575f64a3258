import Slate.Outline
import Std.Data.TreeMap

/-!
Programs: a table of procedures by name. The statements outside all procedures are the body of the
procedure `MAIN`.
-/

set_option autoImplicit false

namespace Slate

structure Program where
  procedures : Std.TreeMap String Stmt

namespace Program

def mainName : String :=
  "MAIN"

def empty : Program :=
  ⟨∅⟩

def find? (program : Program) (name : String) : Option Stmt :=
  program.procedures[name]?

/-- A later definition replaces an earlier one of the same name. -/
def define (program : Program) (name : String) (body : Stmt) : Program :=
  ⟨program.procedures.insert name body⟩

def main? (program : Program) : Option Stmt :=
  program.find? mainName

/-- Names in code point order. -/
def names (program : Program) : List String :=
  program.procedures.keys

/-- Every procedure in the order of their names: the name and a colon, then the outline of the
body one bar in. -/
def text (program : Program) : String :=
  "\n".intercalate (program.procedures.toList.map fun (name, body) =>
    name ++ ":\n| " ++ body.outline.render "\n| ")

@[simp]
theorem find?_empty (name : String) : empty.find? name = none := by
  simp [find?, empty]

theorem find?_define (program : Program) (name other : String) (body : Stmt) :
    (program.define name body).find? other =
      if name = other then some body else program.find? other := by
  simp [find?, define, Std.TreeMap.getElem?_insert]

/-- What holds of the new body and of every body so far holds of every body after the definition. -/
theorem forall_find?_define
    {holds : Stmt → Prop} {program : Program} (name : String) {body : Stmt} (new : holds body)
    (others : ∀ other found, program.find? other = some found → holds found) :
    ∀ other found, (program.define name body).find? other = some found → holds found := by
  intro other found lookup
  rw [find?_define] at lookup
  split at lookup
  next =>
    cases lookup
    exact new
  next => exact others other found lookup

end Program

end Slate
