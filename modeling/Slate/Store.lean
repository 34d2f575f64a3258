import Slate.Word
import Std.Data.TreeMap

/-!
The one flat store that the main program and all procedures share. A slot that was never set reads
as zero, though the store still knows which slots were set.
-/

set_option autoImplicit false

namespace Slate

structure Store where
  slots : Std.TreeMap String Word

namespace Store

def empty : Store :=
  ⟨∅⟩

def get (store : Store) (name : String) : Word :=
  store.slots.getD name 0

def set (store : Store) (name : String) (value : Word) : Store :=
  ⟨store.slots.insert name value⟩

def contains (store : Store) (name : String) : Bool :=
  store.slots.contains name

def size (store : Store) : Nat :=
  store.slots.size

def isEmpty (store : Store) : Bool :=
  store.slots.isEmpty

/-- All slots that were set, by name in code point order. -/
def toList (store : Store) : List (String × Word) :=
  store.slots.toList

/-- Two stores are the same if the same slots were set to the same values. -/
instance : BEq Store where
  beq left right := left.toList == right.toList

@[simp]
theorem get_empty (name : String) : empty.get name = 0 := by
  simp [get, empty]

theorem get_set (store : Store) (name other : String) (value : Word) :
    (store.set name value).get other = if name = other then value else store.get other := by
  simp [get, set, Std.TreeMap.getD_insert]

theorem contains_set (store : Store) (name other : String) (value : Word) :
    (store.set name value).contains other = (decide (name = other) || store.contains other) := by
  have same : (compare name other == .eq) = decide (name = other) := by
    rw [Bool.eq_iff_iff]
    simp
  simp [contains, set, Std.TreeMap.contains_insert, same]

end Store

end Slate
