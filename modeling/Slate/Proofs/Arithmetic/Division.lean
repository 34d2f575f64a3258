import Mathlib.Data.Rat.Floor
import Slate.Operator

/-!
Division of words. The machine rounds a quotient towards zero, and the language rounds it down. The
corrections of quotient and remainder look at different signs, yet they are made for the same pairs
of words: those where the rounded quotient is above the exact one. For the integers behind the words
they give the floor of the exact quotient and the remainder that fits to it. Taking integers to
words respects sums and products, so this carries over to words. The only quotient that is no word
is that of the lowest word and minus one.
-/

set_option autoImplicit false

namespace Slate

/-- The remainder is zero, or it has the sign of the divisor and is the smaller of both in size. -/
def IsRemainder (remainder divisor : Int) : Prop :=
  0 ≤ remainder ∧ remainder < divisor ∨ divisor < remainder ∧ remainder ≤ 0

theorem floor_eq_of_isRemainder
    {dividend divisor quotient remainder : Int} (fits : IsRemainder remainder divisor)
    (split : divisor * quotient + remainder = dividend) :
    ⌊(dividend : ℚ) / divisor⌋ = quotient := by
  have exact : (dividend : ℚ) = divisor * quotient + remainder := by
    rw [← split]
    push_cast
    rfl
  rw [Int.floor_eq_iff, exact]
  obtain ⟨least, greatest⟩ | ⟨least, greatest⟩ := fits
  · have positive : (0 : ℚ) < divisor := Int.cast_pos.2 (Int.lt_of_le_of_lt least greatest)
    have fromZero : (0 : ℚ) ≤ remainder := Int.cast_nonneg least
    have below : (remainder : ℚ) < divisor := Int.cast_lt.2 greatest
    rw [le_div_iff₀ positive, div_lt_iff₀ positive]
    constructor <;> linarith
  · have negative : (divisor : ℚ) < 0 := Int.cast_lt_zero.2 (Int.lt_of_lt_of_le least greatest)
    have toZero : (remainder : ℚ) ≤ 0 := Int.cast_nonpos.2 greatest
    have above : (divisor : ℚ) < remainder := Int.cast_lt.2 least
    rw [le_div_iff_of_neg negative, div_lt_iff_of_neg negative]
    constructor <;> linarith

theorem IsRemainder.natAbs_le
    {dividend divisor quotient remainder : Int} (fits : IsRemainder remainder divisor)
    (split : divisor * quotient + remainder = dividend) :
    quotient.natAbs ≤ dividend.natAbs := by
  have isQuotient : dividend.fdiv divisor = quotient := by
    rw [Int.add_comm] at split
    obtain ⟨least, greatest⟩ | ⟨least, greatest⟩ := fits
    · have positive : 0 < divisor := Int.lt_of_le_of_lt least greatest
      exact ((Int.fdiv_fmod_unique positive).2 ⟨split, least, greatest⟩).1
    · have negative : divisor < 0 := Int.lt_of_lt_of_le least greatest
      exact ((Int.fdiv_fmod_unique' negative).2 ⟨split, least, greatest⟩).1
  rw [← isQuotient]
  exact Int.natAbs_fdiv_le_natAbs dividend divisor

/-- Where a quotient is rounded towards zero, the remainder has the sign of the dividend. -/
theorem tmod_cases (dividend : Int) {divisor : Int} (nonzero : divisor ≠ 0) :
    (dividend.tmod divisor).natAbs < divisor.natAbs ∧
      (0 ≤ dividend ∧ 0 ≤ dividend.tmod divisor ∨ dividend < 0 ∧ dividend.tmod divisor ≤ 0) := by
  constructor
  · rw [Int.natAbs_tmod]
    exact Nat.mod_lt _ (Int.natAbs_pos.2 nonzero)
  · rcases le_or_gt 0 dividend with nonnegative | negative
    · exact .inl ⟨nonnegative, Int.tmod_nonneg divisor nonnegative⟩
    · have opposite : 0 ≤ (-dividend).tmod divisor := Int.tmod_nonneg divisor (by omega)
      rw [Int.neg_tmod] at opposite
      exact .inr ⟨negative, by omega⟩

namespace Word

variable {dividend divisor : Word}

/-- The quotient rounded towards zero is above the exact one: it is not exact, and one of both words
is below zero. -/
def Overshoots (dividend divisor : Word) : Prop :=
  dividend % divisor ≠ 0 ∧ (dividend < 0 ↔ ¬ divisor < 0)

theorem overshoots_iff :
    Overshoots dividend divisor ↔ dividend.toInt.tmod divisor.toInt ≠ 0 ∧
      (dividend.toInt < 0 ↔ ¬ divisor.toInt < 0) := by
  rw [Overshoots, Int64.lt_iff_toInt_lt, Int64.lt_iff_toInt_lt, ← Int64.toInt_mod, ne_eq, ne_eq,
    ← Int64.toInt_inj]
  rfl

theorem toInt_ne_zero (nonzero : divisor ≠ 0) : divisor.toInt ≠ 0 := by
  intro isZero
  exact nonzero (Int64.toInt_inj.1 isZero)

/-- The sign of a remainder tells the same as the sign of the dividend. -/
theorem overshoots_iff_remainder (nonzero : divisor ≠ 0) :
    Overshoots dividend divisor ↔
      dividend % divisor ≠ 0 ∧ (dividend % divisor < 0 ↔ ¬ divisor < 0) := by
  have signs := (tmod_cases dividend.toInt (toInt_ne_zero nonzero)).2
  rw [Overshoots]
  refine and_congr_right fun inexact => ?_
  have inexactToo : dividend.toInt.tmod divisor.toInt ≠ 0 := by
    rw [← Int64.toInt_mod]
    exact toInt_ne_zero inexact
  have sameSign : dividend % divisor < 0 ↔ dividend < 0 := by
    rw [Int64.lt_iff_toInt_lt, Int64.lt_iff_toInt_lt, Int64.toInt_mod]
    change _ < 0 ↔ _ < 0
    omega
  rw [sameSign]

theorem correction_iff (remainder : Word) (first second : Prop) [Decidable first]
    [Decidable second] :
    (remainder != 0 && decide first != decide second) = true ↔
      remainder ≠ 0 ∧ (first ↔ ¬ second) := by
  by_cases first <;> by_cases second <;> simp [*]

theorem floorDiv_of_overshoots (overshoots : Overshoots dividend divisor) :
    dividend.floorDiv divisor = dividend / divisor - 1 :=
  if_pos ((correction_iff _ _ _).2 overshoots)

theorem floorDiv_of_not_overshoots (exceedsNot : ¬ Overshoots dividend divisor) :
    dividend.floorDiv divisor = dividend / divisor :=
  if_neg (mt (correction_iff _ _ _).1 exceedsNot)

theorem floorMod_of_overshoots (nonzero : divisor ≠ 0) (overshoots : Overshoots dividend divisor) :
    dividend.floorMod divisor = dividend % divisor + divisor :=
  if_pos ((correction_iff _ _ _).2 ((overshoots_iff_remainder nonzero).1 overshoots))

theorem floorMod_of_not_overshoots
    (nonzero : divisor ≠ 0) (exceedsNot : ¬ Overshoots dividend divisor) :
    dividend.floorMod divisor = dividend % divisor :=
  if_neg (mt (correction_iff _ _ _).1 (mt (overshoots_iff_remainder nonzero).2 exceedsNot))

theorem div_eq_ofInt (dividend divisor : Word) :
    dividend / divisor = Int64.ofInt (dividend.toInt.tdiv divisor.toInt) := by
  rw [← Int64.toInt_inj, Int64.toInt_div, Int64.toInt_ofInt]

theorem mod_eq_ofInt (dividend divisor : Word) :
    dividend % divisor = Int64.ofInt (dividend.toInt.tmod divisor.toInt) := by
  rw [← Int64.toInt_mod, Int64.ofInt_toInt]

/-- A quotient and a remainder are those of the machine, or both are corrected. Minus one divides
everything, so that it never comes to a correction there. -/
def Corrected (dividend divisor : Word) (quotient remainder : Int) : Prop :=
  quotient = dividend.toInt.tdiv divisor.toInt ∧ remainder = dividend.toInt.tmod divisor.toInt ∨
    divisor ≠ -1 ∧ quotient = dividend.toInt.tdiv divisor.toInt - 1 ∧
      remainder = dividend.toInt.tmod divisor.toInt + divisor.toInt

/-- Quotient and remainder are the words of two integers that divide the dividend exactly. -/
theorem exists_floored (dividend : Word) (nonzero : divisor ≠ 0) :
    ∃ quotient remainder : Int, IsRemainder remainder divisor.toInt ∧
      divisor.toInt * quotient + remainder = dividend.toInt ∧
      Corrected dividend divisor quotient remainder ∧
      dividend.floorDiv divisor = Int64.ofInt quotient ∧
      dividend.floorMod divisor = Int64.ofInt remainder := by
  have split := Int.mul_tdiv_add_tmod dividend.toInt divisor.toInt
  obtain ⟨smaller, signs⟩ := tmod_cases dividend.toInt (toInt_ne_zero nonzero)
  by_cases overshoots : Overshoots dividend divisor
  · have apart := overshoots_iff.1 overshoots
    refine ⟨dividend.toInt.tdiv divisor.toInt - 1,
      dividend.toInt.tmod divisor.toInt + divisor.toInt, ?_, ?_, .inr ⟨?_, rfl, rfl⟩, ?_, ?_⟩
    · unfold IsRemainder
      omega
    · linarith
    · rintro rfl
      have exact : dividend.toInt.tmod (-1) = 0 := by rw [Int.tmod_neg, Int.tmod_one]
      exact apart.1 exact
    · rw [floorDiv_of_overshoots overshoots, div_eq_ofInt, Int64.ofInt_sub]
      rfl
    · rw [floorMod_of_overshoots nonzero overshoots, mod_eq_ofInt, Int64.ofInt_add,
        Int64.ofInt_toInt]
  · have alike := mt overshoots_iff.2 overshoots
    refine ⟨dividend.toInt.tdiv divisor.toInt, dividend.toInt.tmod divisor.toInt, ?_, split,
      .inl ⟨rfl, rfl⟩, ?_, ?_⟩
    · unfold IsRemainder
      omega
    · rw [floorDiv_of_not_overshoots overshoots, div_eq_ofInt]
    · rw [floorMod_of_not_overshoots nonzero overshoots, mod_eq_ofInt]

/-- The only pair of words whose quotient is no word. -/
def Exceeds (dividend divisor : Word) : Prop :=
  dividend.toInt = -2 ^ 63 ∧ divisor.toInt = -1

theorem toInt_ofInt_remainder {remainder : Int} (fits : IsRemainder remainder divisor.toInt) :
    (Int64.ofInt remainder).toInt = remainder := by
  have least := divisor.le_toInt
  have greatest := divisor.toInt_lt
  unfold IsRemainder at fits
  apply Int64.toInt_ofInt_of_le <;> omega

theorem exceeds_iff
    {quotient remainder : Int} (fits : IsRemainder remainder divisor.toInt)
    (split : divisor.toInt * quotient + remainder = dividend.toInt) :
    Exceeds dividend divisor ↔ quotient = 2 ^ 63 := by
  have noLarger := fits.natAbs_le split
  have least := dividend.le_toInt
  have greatest := dividend.toInt_lt
  unfold IsRemainder at fits
  constructor
  · rintro ⟨isLowest, isMinusOne⟩
    rw [isLowest, isMinusOne] at split
    omega
  · rintro rfl
    unfold Exceeds
    omega

theorem toInt_ofInt_quotient_iff
    {quotient remainder : Int} (fits : IsRemainder remainder divisor.toInt)
    (split : divisor.toInt * quotient + remainder = dividend.toInt) :
    (Int64.ofInt quotient).toInt = quotient ↔ ¬ Exceeds dividend divisor := by
  rw [exceeds_iff fits split]
  constructor
  · rintro isWord rfl
    exact absurd (Int64.toInt_lt (Int64.ofInt (2 ^ 63))) (by rw [isWord]; decide)
  · intro notHighest
    have noLarger := fits.natAbs_le split
    have least := dividend.le_toInt
    have greatest := dividend.toInt_lt
    apply Int64.toInt_ofInt_of_le <;> omega

/-- The exact quotient of two words, rounded down. -/
def exactQuotient (dividend divisor : Word) : Int :=
  ⌊(dividend.toInt : ℚ) / divisor.toInt⌋

/-- What a quotient and a remainder have to do with the exact quotient. -/
structure RoundsDown (dividend divisor quotient remainder : Word) : Prop where
  remainder_eq :
    remainder.toInt = dividend.toInt - divisor.toInt * exactQuotient dividend divisor
  isRemainder : IsRemainder remainder.toInt divisor.toInt
  quotient_eq : quotient.toInt = (exactQuotient dividend divisor).bmod (2 ^ 64)
  exact_iff : quotient.toInt = exactQuotient dividend divisor ↔ ¬ Exceeds dividend divisor
  lowest : Exceeds dividend divisor → quotient.toInt = -2 ^ 63
  /-- Neither correction wraps around. -/
  corrected :
    quotient = dividend / divisor ∧ remainder = dividend % divisor ∨
      quotient.toInt = (dividend / divisor).toInt - 1 ∧
        remainder.toInt = (dividend % divisor).toInt + divisor.toInt
  composed : quotient * divisor + remainder = dividend
  composedExactly_iff :
    quotient.toInt * divisor.toInt + remainder.toInt = dividend.toInt ↔ ¬ Exceeds dividend divisor

theorem roundsDown (dividend : Word) (nonzero : divisor ≠ 0) :
    RoundsDown dividend divisor (dividend.floorDiv divisor) (dividend.floorMod divisor) := by
  obtain ⟨quotient, remainder, fits, split, corrected, isQuotient, isRemainder⟩ :=
    exists_floored dividend nonzero
  have isFloor : exactQuotient dividend divisor = quotient := floor_eq_of_isRemainder fits split
  have remainderExact := toInt_ofInt_remainder fits
  have quotientExact_iff := toInt_ofInt_quotient_iff fits split
  rw [isQuotient, isRemainder]
  constructor
  case remainder_eq =>
    rw [remainderExact, isFloor]
    omega
  case isRemainder => rwa [remainderExact]
  case quotient_eq =>
    rw [isFloor, Int64.toInt_ofInt]
    rfl
  case exact_iff => rwa [isFloor]
  case lowest =>
    intro exceeds
    rw [(exceeds_iff fits split).1 exceeds]
    decide
  case corrected =>
    obtain ⟨rfl, rfl⟩ | ⟨noMinusOne, rfl, rfl⟩ := corrected
    · exact .inl ⟨(div_eq_ofInt _ _).symm, (mod_eq_ofInt _ _).symm⟩
    · have isWord : ¬ Exceeds dividend divisor := fun exceeds =>
        noMinusOne (Int64.toInt_inj.1 exceeds.2)
      rw [remainderExact, quotientExact_iff.2 isWord, Int64.toInt_div_of_ne_right _ _ noMinusOne,
        Int64.toInt_mod]
      exact .inr ⟨rfl, rfl⟩
  case composed =>
    calc
      Int64.ofInt quotient * divisor + Int64.ofInt remainder
        = Int64.ofInt (quotient * divisor.toInt + remainder) := by
          rw [Int64.ofInt_add, Int64.ofInt_mul, Int64.ofInt_toInt]
      _ = Int64.ofInt dividend.toInt := by rw [Int.mul_comm, split]
      _ = dividend := Int64.ofInt_toInt dividend
  case composedExactly_iff =>
    rw [remainderExact, ← quotientExact_iff, ← split, Int.mul_comm, Int.add_left_inj]
    exact Int.mul_eq_mul_left_iff (toInt_ne_zero nonzero)

end Word

/-- Division rounds down for all words. A zero divisor is refused by both operators. Any other
divisor gives a quotient and a remainder that are rounded down, as a whole and in each
correction. -/
theorem BinaryOp.division_rounds_down (dividend divisor : Word) :
    (divisor = 0 →
      BinaryOp.divide.apply dividend divisor = .error .divisionByZero ∧
        BinaryOp.modulo.apply dividend divisor = .error .divisionByZero) ∧
    (divisor ≠ 0 → ∃ quotient remainder,
      BinaryOp.divide.apply dividend divisor = .ok quotient ∧
        BinaryOp.modulo.apply dividend divisor = .ok remainder ∧
        Word.RoundsDown dividend divisor quotient remainder) := by
  constructor
  · intro isZero
    exact ⟨if_pos isZero, if_pos isZero⟩
  · intro nonzero
    exact ⟨_, _, if_neg nonzero, if_neg nonzero, Word.roundsDown dividend nonzero⟩

/-- A divisor of zero, a quotient below zero that is not exact, and the quotient that is no word. -/
theorem BinaryOp.division_rounds_down_lowest :
    (BinaryOp.divide.apply 7 0 = .error .divisionByZero ∧
      BinaryOp.modulo.apply 7 0 = .error .divisionByZero) ∧
    (BinaryOp.divide.apply (-7) 2 = .ok (-4) ∧ BinaryOp.modulo.apply (-7) 2 = .ok 1 ∧
      Word.RoundsDown (-7) 2 (-4) 1) ∧
    (BinaryOp.divide.apply Int64.minValue (-1) = .ok Int64.minValue ∧
      BinaryOp.modulo.apply Int64.minValue (-1) = .ok 0 ∧
      Word.RoundsDown Int64.minValue (-1) Int64.minValue 0) := by
  refine ⟨(division_rounds_down 7 0).1 rfl, ⟨rfl, rfl, ?_⟩, ⟨rfl, rfl, ?_⟩⟩
  · obtain ⟨_, _, ⟨⟩, ⟨⟩, rounds⟩ := (division_rounds_down (-7) 2).2 (by decide)
    exact rounds
  · obtain ⟨_, _, ⟨⟩, ⟨⟩, rounds⟩ := (division_rounds_down Int64.minValue (-1)).2 (by decide)
    exact rounds

end Slate
