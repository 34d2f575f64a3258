import Slate.Proofs.Execution.Footprint
import Slate.Proofs.Execution.Visibility
import Slate.Proofs.Printing.Outlines

/-!
Names of slots. A reference names its slot by its variable and by the values of its indices, with a
point before each of them. A variable of a source has no point in it, and neither has the decimal
text of a word, so the points show where the parts of a name end. Hence two references name one slot
only if their variables and the values of all their indices are the same.
-/

set_option autoImplicit false

namespace Slate

/-- The slot that a variable and the values of its indices name. -/
def slotName (base : String) (indices : List Word) : String :=
  indices.foldl slotAt base

/-- The values of the indices of a reference, from the first to the last. -/
def Ref.indices (store : Store) : Ref → EStateM Fault Input (List Word)
  | .plain _ => pure []
  | .indexed base index => do
      let before ← base.indices store
      let last ← index.eval store
      return before ++ [last]

theorem Ref.slot_eq (store : Store) (ref : Ref) :
    ref.slot store = (do return slotName ref.base (← ref.indices store)) := by
  induction ref using Ref.indices.induct with
  | case1 name => simp [Ref.slot, Ref.indices, Ref.base, slotName]
  | case2 base index inductionHypothesis =>
      simp [Ref.slot, Ref.indices, Ref.base, inductionHypothesis, slotName]

/-- What a name has behind its variable. -/
def indexText (indices : List Word) : List Char :=
  indices.flatMap fun index => '.' :: index.decimal.toList

theorem toList_slotName (base : String) (indices : List Word) :
    (slotName base indices).toList = base.toList ++ indexText indices := by
  induction indices generalizing base with
  | nil => simp [slotName, indexText]
  | cons index rest inductionHypothesis =>
      have further := inductionHypothesis (slotAt base index)
      simpa [slotName, slotAt, indexText] using further

theorem IsIndexText.noPoint {text : List Char} (isIndexText : IsIndexText text) : '.' ∉ text := by
  have noDigit : ¬ ('0' ≤ '.' ∧ '.' ≤ '9') := by decide
  intro member
  cases isIndexText with
  | natural _ allDigits => exact noDigit (allDigits '.' member)
  | negative _ allDigits =>
      rcases List.mem_cons.1 member with isMinus | inDigits
      · exact absurd isMinus (by decide)
      · exact noDigit (allDigits '.' inDigits)

/-- Two texts without a point end at the same place, if a point or nothing follows each of them. -/
theorem append_injective_of_noPoint
    {first second : List Char} {indices others : List Word}
    (noPoint : '.' ∉ first) (noPointToo : '.' ∉ second)
    (same : first ++ indexText indices = second ++ indexText others) :
    first = second ∧ indexText indices = indexText others := by
  have inside {text : List Char} (noPoint : '.' ∉ text) :
      ∀ character ∈ text, (character != '.') = true := by
    intro character member
    apply bne_iff_ne.2
    rintro rfl
    exact noPoint member
  have stops (indices : List Word) :
      ∀ character ∈ (indexText indices).head?, (character != '.') = false := by
    intro character isFirst
    cases indices with
    | nil => cases isFirst
    | cons index rest =>
        cases isFirst
        rfl
  exact Outline.append_injective (inside noPoint) (inside noPointToo) (stops indices) (stops others)
    same

theorem indexText_injective
    {indices others : List Word} (same : indexText indices = indexText others) :
    indices = others := by
  induction indices generalizing others with
  | nil =>
      cases others with
      | nil => rfl
      | cons other others => cases same
  | cons index rest inductionHypothesis =>
      cases others with
      | nil => cases same
      | cons other others =>
          have sameText : index.decimal.toList ++ indexText rest =
              other.decimal.toList ++ indexText others := (List.cons.inj same).2
          obtain ⟨sameDecimal, sameRest⟩ := append_injective_of_noPoint
            (isIndexText_decimal index).noPoint (isIndexText_decimal other).noPoint sameText
          rw [Word.decimal_injective (String.toList_inj.1 sameDecimal),
            inductionHypothesis sameRest]

theorem slotName_eq_iff
    {base other : String} {indices others : List Word} (noPoint : '.' ∉ base.toList)
    (noPointToo : '.' ∉ other.toList) :
    slotName base indices = slotName other others ↔ base = other ∧ indices = others := by
  constructor
  · intro same
    have sameText := congrArg String.toList same
    rw [toList_slotName, toList_slotName] at sameText
    obtain ⟨sameBase, sameIndices⟩ := append_injective_of_noPoint noPoint noPointToo sameText
    exact ⟨String.toList_inj.1 sameBase, indexText_injective sameIndices⟩
  · rintro ⟨rfl, rfl⟩
    rfl

theorem Token.IsVariableName.noPoint {name : String} (isName : IsVariableName name) :
    '.' ∉ name.toList := by
  intro member
  have noLetter : ¬ (('a' ≤ '.' ∧ '.' ≤ 'z') ∨ '.' = '_') := by decide
  exact noLetter (isName.2 '.' member)

namespace Machine

/-- The values that a machine finds for the indices of a reference. -/
def indicesOf (ref : Ref) : Action (List Word) :=
  reading (ref.indices ·)

theorem slotOf_eq_ok
    {ref : Ref} {machine after : Machine} {slot : String}
    (run : slotOf ref machine = .ok slot after) :
    ∃ indices, indicesOf ref machine = .ok indices after ∧ slot = slotName ref.base indices := by
  obtain ⟨input, slotRun, rfl⟩ := reading_eq_ok_iff.1 run
  rw [Ref.slot_eq] at slotRun
  obtain ⟨indices, _, indicesRun, returned⟩ := bind_eq_ok_iff.1 slotRun
  cases returned
  exact ⟨indices, reading_eq_ok_iff.2 ⟨input, indicesRun, rfl⟩, rfl⟩

/-- Slots do not overlap. If two references, on whatever machines, come to a slot each, then both
slots are the same exactly if the references have the same variable and found the same values for
their indices, provided that there is no point in the variables, as in those of a source. The slot
of a reference with an index is none of the names by which a program writes and takes input. -/
theorem slotOf_injective :
    (∀ ref other machine twin slot otherSlot after otherAfter,
      '.' ∉ ref.base.toList → '.' ∉ other.base.toList →
      slotOf ref machine = .ok slot after → slotOf other twin = .ok otherSlot otherAfter →
        ∃ indices otherIndices,
          indicesOf ref machine = .ok indices after ∧
          indicesOf other twin = .ok otherIndices otherAfter ∧
          (slot = otherSlot ↔ ref.base = other.base ∧ indices = otherIndices)) ∧
    (∀ base index machine slot after, slotOf (.indexed base index) machine = .ok slot after →
      slot ∉ [writeName, putName, readName, getName]) ∧
    ∀ source tokens, Token.scan source = .ok tokens →
      ∀ name, .identifier name ∈ tokens → '.' ∉ name.toList := by
  refine ⟨?_, ?_, ?_⟩
  · intro ref other machine twin slot otherSlot after otherAfter noPoint noPointToo run otherRun
    obtain ⟨indices, indicesRun, rfl⟩ := slotOf_eq_ok run
    obtain ⟨otherIndices, otherIndicesRun, rfl⟩ := slotOf_eq_ok otherRun
    exact ⟨indices, otherIndices, indicesRun, otherIndicesRun, slotName_eq_iff noPoint noPointToo⟩
  · intro base index machine slot after run
    obtain ⟨input, slotRun, rfl⟩ := reading_eq_ok_iff.1 run
    rw [Ref.slot] at slotRun
    obtain ⟨outer, middle, _, indexRun⟩ := bind_eq_ok_iff.1 slotRun
    obtain ⟨value, _, _, returned⟩ := bind_eq_ok_iff.1 indexRun
    cases returned
    intro member
    have noPoints : ∀ name ∈ [writeName, putName, readName, getName], '.' ∉ name.toList := by
      decide
    exact slotAt_ne (noPoints _ member) outer value rfl
  · intro source tokens scanned name member
    have isName : Token.IsVariableName name := Token.lexical_of_scan scanned _ member
    exact isName.noPoint

/-- The same digits, divided among two indices in two ways. The lowest word as the index of a
variable that takes input where it has no index. -/
theorem slotOf_injective_digits :
    (slotOf (.indexed (.indexed (.plain "a") (.literal 1)) (.literal 23))
        (start 4 ⟨[], []⟩ .unlimited) = .ok "a.1.23" (start 4 ⟨[], []⟩ .unlimited) ∧
      slotOf (.indexed (.indexed (.plain "a") (.literal 12)) (.literal 3))
        (start 4 ⟨[], []⟩ .unlimited) = .ok "a.12.3" (start 4 ⟨[], []⟩ .unlimited) ∧
      ("a.1.23" = "a.12.3" ↔ "a" = "a" ∧ ([1, 23] : List Word) = [12, 3])) ∧
    (slotOf (.indexed (.plain "read") (.literal Int64.minValue)) (start 4 ⟨[], []⟩ .unlimited) =
        .ok "read.-9223372036854775808" (start 4 ⟨[], []⟩ .unlimited) ∧
      "read.-9223372036854775808" ∉ [writeName, putName, readName, getName]) ∧
    Token.scan "a@1" = .ok [.identifier "a", .at, .number 1] ∧ '.' ∉ "a".toList := by
  have named : slotAt (slotAt "a" 1) 23 = "a.1.23" := by decide +kernel
  have otherNamed : slotAt (slotAt "a" 12) 3 = "a.12.3" := by decide +kernel
  have lowestNamed : slotAt "read" Int64.minValue = "read.-9223372036854775808" := by
    decide +kernel
  have run : slotOf (.indexed (.indexed (.plain "a") (.literal 1)) (.literal 23))
      (start 4 ⟨[], []⟩ .unlimited) = .ok "a.1.23" (start 4 ⟨[], []⟩ .unlimited) := by
    rw [← named]
    rfl
  have otherRun : slotOf (.indexed (.indexed (.plain "a") (.literal 12)) (.literal 3))
      (start 4 ⟨[], []⟩ .unlimited) = .ok "a.12.3" (start 4 ⟨[], []⟩ .unlimited) := by
    rw [← otherNamed]
    rfl
  have lowestRun : slotOf (.indexed (.plain "read") (.literal Int64.minValue))
      (start 4 ⟨[], []⟩ .unlimited) =
        .ok "read.-9223372036854775808" (start 4 ⟨[], []⟩ .unlimited) := by
    rw [← lowestNamed]
    rfl
  have scanned : Token.scan "a@1" = .ok [.identifier "a", .at, .number 1] := by decide +kernel
  refine ⟨⟨run, otherRun, ?_⟩, ⟨lowestRun, slotOf_injective.2.1 _ _ _ _ _ lowestRun⟩, scanned,
    slotOf_injective.2.2 _ _ scanned "a" List.mem_cons_self⟩
  obtain ⟨indices, otherIndices, indicesRun, otherIndicesRun, apart⟩ :=
    slotOf_injective.1 _ _ _ _ _ _ _ _ (by decide) (by decide) run otherRun
  cases indicesRun
  cases otherIndicesRun
  exact apart

end Machine

end Slate
