import Mathlib.Algebra.Order.Field.Power
import Mathlib.Data.Rat.Floor
import Mathlib.Tactic.FieldSimp
import Mathlib.Tactic.Linarith
import Mathlib.Tactic.Ring
import Lox.Decimal.Shortest

/-!
# Rounding intervals

The numbers that round to a double form an interval.  The shortest decimal of a double
lies in its interval, and the intervals of different doubles have no number in common.
-/

namespace Lox

/-- The number that a decimal stands for. -/
def Decimal.value (d : Decimal) : ℚ :=
  d.significand * 10 ^ d.exponent

namespace Binary

/-- The number that a size stands for. -/
def value (b : Binary) : ℚ :=
  b.mantissa * 2 ^ b.exponent

/-- A count of quarter units of the last mantissa place. -/
def quarterUnits (b : Binary) (quarters : Nat) : ℚ :=
  quarters * 2 ^ (b.exponent - 2)

/-- The midpoint to the next smaller size, in quarter units. -/
def lowQuarters (b : Binary) : Nat :=
  4 * b.mantissa - if b.narrowBelow then 1 else 2

/-- The midpoint to the next larger size, in quarter units. -/
def highQuarters (b : Binary) : Nat :=
  4 * b.mantissa + 2

/-- The number rounds to this size: it lies between the two midpoints, which belong to the
interval exactly when the mantissa is even. -/
def Covers (b : Binary) (number : ℚ) : Prop :=
  if b.mantissa % 2 = 0 then
    b.quarterUnits b.lowQuarters ≤ number ∧ number ≤ b.quarterUnits b.highQuarters
  else
    b.quarterUnits b.lowQuarters < number ∧ number < b.quarterUnits b.highQuarters

/-! ## The test on natural numbers -/

theorem zpow_mul_pow_toNat_neg {base : ℚ} (nonzero : base ≠ 0) (exponent : Int) :
    base ^ exponent * base ^ (-exponent).toNat = base ^ exponent.toNat := by
  rcases Int.eq_nat_or_neg exponent with ⟨size, rfl | rfl⟩
  · simp
  · simp [nonzero]

/-- The factor that turns both sides of a comparison on a grid into natural numbers. -/
def clearing (b : Binary) (grid : Int) : ℚ :=
  2 ^ (2 - b.exponent).toNat * 10 ^ (-grid).toNat

theorem clearing_pos (b : Binary) (grid : Int) : 0 < b.clearing grid := by
  unfold clearing
  positivity

theorem cast_binarySide (b : Binary) (grid : Int) (quarters : Nat) :
    (b.binarySide grid quarters : ℚ) = b.quarterUnits quarters * b.clearing grid := by
  have binary := zpow_mul_pow_toNat_neg two_ne_zero (b.exponent - 2)
  rw [neg_sub] at binary
  simp only [binarySide, quarterUnits, clearing, Nat.shiftLeft_eq, Nat.pow_eq, Nat.cast_mul,
    Nat.cast_pow, Nat.cast_ofNat]
  rw [← binary]
  ring

theorem cast_decimalSide (b : Binary) (grid : Int) (count : Nat) :
    (b.decimalSide grid count : ℚ) = count * 10 ^ grid * b.clearing grid := by
  have decimal := zpow_mul_pow_toNat_neg (by norm_num : (10 : ℚ) ≠ 0) grid
  simp only [decimalSide, clearing, Nat.shiftLeft_eq, Nat.pow_eq, Nat.cast_mul, Nat.cast_pow,
    Nat.cast_ofNat]
  rw [← decimal]
  ring

theorem binarySide_le_iff {b : Binary} {grid : Int} {quarters count : Nat} :
    b.binarySide grid quarters ≤ b.decimalSide grid count ↔
      b.quarterUnits quarters ≤ count * 10 ^ grid := by
  rw [← @Nat.cast_le ℚ, cast_binarySide, cast_decimalSide]
  exact mul_le_mul_iff_left₀ (b.clearing_pos grid)

theorem decimalSide_le_iff {b : Binary} {grid : Int} {quarters count : Nat} :
    b.decimalSide grid count ≤ b.binarySide grid quarters ↔
      count * 10 ^ grid ≤ b.quarterUnits quarters := by
  rw [← @Nat.cast_le ℚ, cast_binarySide, cast_decimalSide]
  exact mul_le_mul_iff_left₀ (b.clearing_pos grid)

theorem covers_iff {b : Binary} {grid : Int} {count : Nat} :
    b.covers grid count = true ↔ b.Covers (count * 10 ^ grid) := by
  unfold covers Covers
  by_cases even : b.mantissa % 2 = 0
  · rw [if_pos even, if_pos even, Bool.and_eq_true, decide_eq_true_eq, decide_eq_true_eq]
    exact and_congr binarySide_le_iff decimalSide_le_iff
  · rw [if_neg even, if_neg even, Bool.and_eq_true, decide_eq_true_eq, decide_eq_true_eq,
      ← not_le, ← not_le, ← not_le, ← not_le]
    exact and_congr (not_congr decimalSide_le_iff) (not_congr binarySide_le_iff)

/-! ## Numbers that round to a size -/

theorem quarterUnits_four_mul (b : Binary) : b.quarterUnits (4 * b.mantissa) = b.value := by
  rw [quarterUnits, value, zpow_sub₀ two_ne_zero, Nat.cast_mul, Nat.cast_ofNat]
  ring

theorem quarterUnits_le {b : Binary} {fewer more : Nat} (le : fewer ≤ more) :
    b.quarterUnits fewer ≤ b.quarterUnits more := by
  unfold quarterUnits
  gcongr

theorem quarterUnits_lt {b : Binary} {fewer more : Nat} (lt : fewer < more) :
    b.quarterUnits fewer < b.quarterUnits more := by
  unfold quarterUnits
  gcongr

/-- Every size rounds to itself. -/
theorem covers_value (b : Binary) : b.Covers b.value := by
  unfold Covers
  rw [← quarterUnits_four_mul]
  by_cases even : b.mantissa % 2 = 0
  · rw [if_pos even]
    exact ⟨quarterUnits_le (Nat.sub_le _ _), quarterUnits_le (Nat.le_add_right _ _)⟩
  · rw [if_neg even]
    refine ⟨quarterUnits_lt ?_, quarterUnits_lt (Nat.lt_add_of_pos_right Nat.zero_lt_two)⟩
    unfold lowQuarters
    split <;> omega

theorem covers_of_onGrid {b : Binary} {tie : Tie} {grid : Int} {count : Nat}
    (found : b.onGrid tie grid = some count) : b.Covers (count * 10 ^ grid) := by
  rw [← covers_iff]
  unfold onGrid at found
  dsimp only at found
  split at found
  · cases found
  · next below above =>
      cases found
      exact below
  · next below above =>
      cases found
      exact above
  · next below above =>
      -- Both neighbours round to this size, so the choice between them does not matter.
      split at found
      · cases found
        exact below
      · split at found
        · cases found
          exact above
        · split at found
          · cases found
            exact above
          · split at found
            · cases found
              exact below
            · cases found
              exact above

theorem covers_of_firstOnGrids {b : Binary} {tie : Tie} {grids : List Int} {d : Decimal}
    (found : b.firstOnGrids tie grids = some d) : b.Covers d.value := by
  induction grids with
  | nil => cases found
  | cons grid finer inductionHypothesis =>
      rw [firstOnGrids] at found
      split at found
      · next significand onGrid =>
          cases found
          exact covers_of_onGrid onGrid
      · exact inductionHypothesis found

theorem value_exact (b : Binary) : b.exact.value = b.value := by
  have binary := zpow_mul_pow_toNat_neg two_ne_zero b.exponent
  have tens : (10 : ℚ) = 5 * 2 := by norm_num
  simp only [Decimal.value, exact, value, Nat.shiftLeft_eq, Nat.pow_eq, Nat.cast_mul,
    Nat.cast_pow, Nat.cast_ofNat]
  rw [← binary, zpow_neg, zpow_natCast, tens, mul_pow]
  field_simp

end Binary

/-! ## Shortest decimals -/

namespace Decimal

theorem value_stripZeros (fuel significand : Nat) (exponent : Int) :
    (stripZeros fuel significand exponent).value = significand * 10 ^ exponent := by
  induction fuel generalizing significand exponent with
  | zero => rfl
  | succ fuel inductionHypothesis =>
      rw [stripZeros]
      by_cases divisible : significand ≠ 0 ∧ significand % 10 = 0
      · have rebuilt : significand = 10 * (significand / 10) := by omega
        rw [if_pos divisible, inductionHypothesis, zpow_add_one₀ (by norm_num)]
        nth_rewrite 2 [rebuilt]
        push_cast
        ring
      · rw [if_neg divisible]
        rfl

theorem value_normalize (d : Decimal) : d.normalize.value = d.value :=
  value_stripZeros _ _ _

/-- The shortest decimal of a size rounds to that size. -/
theorem covers_shortest (tie : Tie) (b : Binary) : b.Covers (shortest tie b).value := by
  unfold shortest
  by_cases zero : b.mantissa = 0
  · rw [if_pos zero]
    have sameValue : value { significand := 0, exponent := 0 } = b.value := by
      simp [value, Binary.value, zero]
    rw [sameValue]
    exact b.covers_value
  · rw [if_neg zero, value_normalize]
    cases found : b.firstOnGrids tie _ with
    | some d => exact Binary.covers_of_firstOnGrids found
    | none =>
        rw [Option.getD_none, Binary.value_exact]
        exact b.covers_value

end Decimal

/-! ## Different sizes -/

namespace Binary

/-- The size is that of a double: its mantissa has at most 53 digits, and exactly 53 above
the least exponent. -/
structure Proper (b : Binary) : Prop where
  mantissa_lt : b.mantissa < 2 ^ 53
  exponent_ge : -1074 ≤ b.exponent
  normal : -1074 < b.exponent → 2 ^ 52 ≤ b.mantissa
  narrow : b.narrowBelow = true ↔ b.mantissa = 2 ^ 52 ∧ -1074 < b.exponent

theorem Proper.eq {b c : Binary} (proper : b.Proper) (other : c.Proper)
    (sameExponent : b.exponent = c.exponent) (sameMantissa : b.mantissa = c.mantissa) : b = c := by
  have sameNarrow : b.narrowBelow = c.narrowBelow := by
    rw [Bool.eq_iff_iff, proper.narrow, other.narrow, sameExponent, sameMantissa]
  cases b
  cases c
  cases sameExponent
  cases sameMantissa
  cases sameNarrow
  rfl

theorem quarterUnits_of_le {b c : Binary} (le : b.exponent ≤ c.exponent) (quarters : Nat) :
    c.quarterUnits quarters =
      b.quarterUnits (quarters * 2 ^ (c.exponent - b.exponent).toNat) := by
  have apart : c.exponent - 2 = (c.exponent - b.exponent).toNat + (b.exponent - 2) := by omega
  rw [quarterUnits, quarterUnits, apart, zpow_add₀ two_ne_zero, zpow_natCast]
  push_cast
  ring

/-- The size comes before the other one. -/
def Precedes (b c : Binary) : Prop :=
  b.exponent < c.exponent ∨ b.exponent = c.exponent ∧ b.mantissa < c.mantissa

/-- The interval of a size ends where a later one begins, or before; where the intervals
touch, one of them does not contain its ends. -/
theorem Precedes.highQuarters_le {b c : Binary} (earlier : b.Precedes c) (proper : b.Proper)
    (other : c.Proper) :
    b.highQuarters ≤ c.lowQuarters * 2 ^ (c.exponent - b.exponent).toNat ∧
      (b.mantissa % 2 = 0 → c.mantissa % 2 = 0 →
        b.highQuarters < c.lowQuarters * 2 ^ (c.exponent - b.exponent).toNat) := by
  have bound := proper.mantissa_lt
  unfold highQuarters lowQuarters
  rcases earlier with lower | ⟨sameExponent, smaller⟩
  · have least := proper.exponent_ge
    have normal := other.normal (by omega)
    have two : 2 ^ 1 ≤ 2 ^ (c.exponent - b.exponent).toNat :=
      Nat.pow_le_pow_right Nat.zero_lt_two (by omega)
    have low : 2 ^ 54 - 1 ≤ 4 * c.mantissa - if c.narrowBelow then 1 else 2 := by
      by_cases narrow : c.narrowBelow = true
      · rw [if_pos narrow]
        omega
      · have notLeast : c.mantissa ≠ 2 ^ 52 := fun isLeast =>
          narrow (other.narrow.mpr ⟨isLeast, by omega⟩)
        rw [if_neg narrow]
        omega
    generalize 4 * c.mantissa - (if c.narrowBelow then 1 else 2) = quarters at low ⊢
    have grown := Nat.mul_le_mul_left quarters two
    constructor <;> omega
  · have wide : c.narrowBelow ≠ true := by
      intro narrow
      have cases := other.narrow.mp narrow
      have normal := proper.normal (by omega)
      omega
    rw [sameExponent, Int.sub_self, Int.toNat_zero, Nat.pow_zero, Nat.mul_one, if_neg wide]
    constructor <;> omega

theorem Covers.le_high {b : Binary} {number : ℚ} (covers : b.Covers number) :
    number ≤ b.quarterUnits b.highQuarters ∧
      (b.mantissa % 2 ≠ 0 → number < b.quarterUnits b.highQuarters) := by
  unfold Covers at covers
  split at covers
  · next even => exact ⟨covers.2, fun odd => absurd even odd⟩
  · exact ⟨covers.2.le, fun _ => covers.2⟩

theorem Covers.low_le {b : Binary} {number : ℚ} (covers : b.Covers number) :
    b.quarterUnits b.lowQuarters ≤ number ∧
      (b.mantissa % 2 ≠ 0 → b.quarterUnits b.lowQuarters < number) := by
  unfold Covers at covers
  split at covers
  · next even => exact ⟨covers.1, fun odd => absurd even odd⟩
  · exact ⟨covers.1.le, fun _ => covers.1⟩

theorem Precedes.not_covers {b c : Binary} (earlier : b.Precedes c) (proper : b.Proper)
    (other : c.Proper) {number : ℚ} (covers : b.Covers number) : ¬c.Covers number := by
  intro coversToo
  have le : b.exponent ≤ c.exponent := by
    rcases earlier with lower | ⟨sameExponent, -⟩
    · exact lower.le
    · exact sameExponent.le
  have apart := earlier.highQuarters_le proper other
  have above := covers.le_high
  have below := coversToo.low_le
  rw [quarterUnits_of_le le] at below
  have touching := quarterUnits_le (b := b) apart.1
  by_cases even : b.mantissa % 2 = 0
  · by_cases alsoEven : c.mantissa % 2 = 0
    · have separate := quarterUnits_lt (b := b) (apart.2 even alsoEven)
      linarith only [separate, above.1, below.1]
    · linarith only [touching, above.1, below.2 alsoEven]
  · linarith only [touching, above.2 even, below.1]

/-- No number rounds to two different sizes. -/
theorem Proper.eq_of_covers {b c : Binary} (proper : b.Proper) (other : c.Proper) {number : ℚ}
    (covers : b.Covers number) (coversToo : c.Covers number) : b = c := by
  rcases lt_trichotomy b.exponent c.exponent with lower | sameExponent | higher
  · exact absurd coversToo (Precedes.not_covers (.inl lower) proper other covers)
  · rcases lt_trichotomy b.mantissa c.mantissa with smaller | sameMantissa | larger
    · have earlier : b.Precedes c := .inr ⟨sameExponent, smaller⟩
      exact absurd coversToo (earlier.not_covers proper other covers)
    · exact proper.eq other sameExponent sameMantissa
    · have later : c.Precedes b := .inr ⟨sameExponent.symm, larger⟩
      exact absurd covers (later.not_covers other proper coversToo)
  · exact absurd covers (Precedes.not_covers (.inl higher) other proper coversToo)

end Binary

end Lox
