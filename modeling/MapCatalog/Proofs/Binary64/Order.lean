import MapCatalog.Proofs.Binary64.Finite

/-! # The order of the numbers

Numbers are compared by the bits below their sign.  Within a binade the significand grows with the bits, and every
number of a binade lies below those of the next.
-/

namespace MapCatalog

namespace Binary64

/-- The value of a finite number with its sign, in units of `2 ^ (-1074)`. -/
def signedUnits (x : Binary64) : Int :=
  if x.negative then -(x.units : Int) else x.units

variable {x y : Binary64}

theorem ulp_pos (x : Binary64) : 0 < x.ulp :=
  Nat.two_pow_pos _

/-- The place of the last digit of a number in a binade above the subnormal ones. -/
theorem ulp_of_binade {exponent : Nat} (h : x.magnitude / 2 ^ 52 = exponent + 1) :
    x.ulp = 2 ^ exponent := by
  rw [ulp, h]
  rfl

theorem units_lt_binade (x : Binary64) : x.units < 2 ^ 52 * 2 ^ (x.magnitude / 2 ^ 52) := by
  by_cases hsmall : x.magnitude < 2 ^ 52
  · have hzero : x.magnitude / 2 ^ 52 = 0 := Nat.div_eq_of_lt hsmall
    have hulp : x.ulp = 1 := by
      rw [ulp, hzero]
    rw [units, significand, if_pos hsmall, hulp, hzero]
    omega
  · obtain ⟨exponent, hexponent⟩ : ∃ exponent, x.magnitude / 2 ^ 52 = exponent + 1 :=
      ⟨x.magnitude / 2 ^ 52 - 1, by omega⟩
    have hpow : 2 ^ 52 * 2 ^ (exponent + 1) = 2 ^ 53 * 2 ^ exponent := by
      have hplaces : 52 + (exponent + 1) = 53 + exponent := by omega
      rw [← Nat.pow_add, ← Nat.pow_add, hplaces]
    rw [units, ulp_of_binade hexponent, hexponent, hpow]
    exact Nat.mul_lt_mul_of_pos_right x.significand_lt (Nat.two_pow_pos _)

theorem binade_le_units {exponent : Nat} (h : x.magnitude / 2 ^ 52 = exponent + 1) :
    2 ^ 52 * 2 ^ exponent ≤ x.units := by
  have hlarge : ¬ x.magnitude < 2 ^ 52 := by omega
  rw [units, significand, if_neg hlarge, ulp_of_binade h]
  exact Nat.mul_le_mul_right _ (Nat.le_add_right _ _)

theorem units_lt_units (h : x.magnitude < y.magnitude) : x.units < y.units := by
  have hle : x.magnitude / 2 ^ 52 ≤ y.magnitude / 2 ^ 52 := Nat.div_le_div_right (Nat.le_of_lt h)
  rcases Nat.eq_or_lt_of_le hle with hsame | hless
  · have hsignificand : x.significand < y.significand := by
      unfold significand
      split <;> split <;> omega
    have hulp : x.ulp = y.ulp := by rw [ulp, ulp, hsame]
    rw [units, units, hulp]
    exact Nat.mul_lt_mul_of_pos_right hsignificand y.ulp_pos
  · obtain ⟨exponent, hexponent⟩ : ∃ exponent, y.magnitude / 2 ^ 52 = exponent + 1 :=
      ⟨y.magnitude / 2 ^ 52 - 1, by omega⟩
    calc x.units < 2 ^ 52 * 2 ^ (x.magnitude / 2 ^ 52) := x.units_lt_binade
      _ ≤ 2 ^ 52 * 2 ^ exponent :=
          Nat.mul_le_mul_left _ (Nat.pow_le_pow_right (by decide) (by omega))
      _ ≤ y.units := binade_le_units hexponent

theorem units_congr (h : x.magnitude = y.magnitude) : x.units = y.units := by
  simp only [units, significand, ulp, h]

theorem units_le_units_iff : x.units ≤ y.units ↔ x.magnitude ≤ y.magnitude := by
  constructor
  · intro hle
    refine Nat.le_of_not_lt fun hlt => ?_
    exact Nat.not_lt.2 hle (units_lt_units hlt)
  · intro hle
    rcases Nat.eq_or_lt_of_le hle with heq | hlt
    · exact Nat.le_of_eq (units_congr heq)
    · exact Nat.le_of_lt (units_lt_units hlt)

theorem units_eq_zero_iff : x.units = 0 ↔ x.magnitude = 0 := by
  have hiff := units_le_units_iff (x := x) (y := zero)
  have hzero : zero.magnitude = 0 ∧ zero.units = 0 := by decide +kernel
  rwa [hzero.1, hzero.2, Nat.le_zero, Nat.le_zero] at hiff

/-- The keys are ordered as the exact values are. -/
theorem valueKey_le_valueKey_iff : x.valueKey ≤ y.valueKey ↔ x.signedUnits ≤ y.signedUnits := by
  have hxy := units_le_units_iff (x := x) (y := y)
  have hyx := units_le_units_iff (x := y) (y := x)
  have hx := units_eq_zero_iff (x := x)
  have hy := units_eq_zero_iff (x := y)
  unfold valueKey signedUnits
  split <;> split <;> omega

end Binary64

end MapCatalog
