import Mathlib.Algebra.Group.Nat.Defs
import MapCatalog.Binary64.Scientific

/-! # Numbers that are finite

Rounding a fraction below a power of two stays within one binary place of it, and the powers of ten that a significand
is divided by are at least one, so the way down never leaves the format.
-/

namespace MapCatalog

namespace Binary64

theorem magnitude_ofMagnitude (negative : Bool) {m : Nat} (h : m < 2 ^ 63) :
    (ofMagnitude negative m).magnitude = m := by
  have hsum : (if negative then 2 ^ 63 else 0) + m < 2 ^ 64 := by
    cases negative <;> simp <;> omega
  rw [ofMagnitude, magnitude, UInt64.toNat_ofNat_of_lt' hsum]
  cases negative <;> simp <;> omega

theorem isFinite_neg (x : Binary64) : x.neg.isFinite = x.isFinite := by
  rw [isFinite, neg, magnitude_ofMagnitude _ x.magnitude_lt, isFinite]

theorem isFinite_zero : zero.isFinite = true := by
  decide

/-! ## Rounding -/

theorem roundQuotient_le (num den : Nat) : roundQuotient num den ≤ num / den + 1 := by
  simp only [roundQuotient]
  split
  · omega
  · split <;> omega

/-- A number of magnitude at most that of `2 ^ (k + 1)`. -/
def Bounded (k : Nat) (x : Binary64) : Prop :=
  x.magnitude ≤ (k + 1023) * 2 ^ 52

theorem unitsPerOne_pos : 0 < unitsPerOne := by
  decide +kernel

theorem two_pow_mul_unitsPerOne (k : Nat) : 2 ^ k * unitsPerOne = 2 ^ (k + 1074) := by
  rw [Nat.pow_add]
  rfl

theorem log2_lt_of_lt {q k : Nat} (h : q < 2 ^ (k + 1074)) : q.log2 - 52 ≤ k + 1021 := by
  by_cases hzero : q = 0
  · subst hzero
    exact Nat.zero_le _
  · have hlog := (Nat.log2_lt hzero).2 h
    omega

/-- A whole number keeps 53 binary digits when the places below are cut off. -/
theorem div_place_lt (q : Nat) : q / 2 ^ (q.log2 - 52) < 2 ^ 53 := by
  have hroom : 2 ^ (q.log2 + 1) ≤ 2 ^ 53 * 2 ^ (q.log2 - 52) := by
    rw [← Nat.pow_add]
    exact Nat.pow_le_pow_right (by decide) (by omega)
  have hself : q < 2 ^ 53 * 2 ^ (q.log2 - 52) := Nat.lt_of_lt_of_le Nat.lt_log2_self hroom
  exact (Nat.div_lt_iff_lt_mul (Nat.two_pow_pos _)).2 hself

theorem nearestMagnitude_le {num den k : Nat} (h : num < den * 2 ^ k) :
    nearestMagnitude num den ≤ (k + 1023) * 2 ^ 52 := by
  have hden : 0 < den := Nat.pos_of_lt_mul_right h
  have hquotient : num * unitsPerOne / den < 2 ^ (k + 1074) := by
    have hscaled := Nat.mul_lt_mul_of_pos_right h unitsPerOne_pos
    rw [Nat.mul_assoc, two_pow_mul_unitsPerOne, Nat.mul_comm den] at hscaled
    exact (Nat.div_lt_iff_lt_mul hden).2 hscaled
  have hround := roundQuotient_le (num * unitsPerOne)
    (den * Nat.pow 2 ((num * unitsPerOne / den).log2 - 52))
  rw [← Nat.div_div_eq_div_mul] at hround
  rw [nearestMagnitude]
  apply Nat.le_trans (Nat.min_le_right _ _)
  generalize num * unitsPerOne / den = q at hquotient hround ⊢
  have hplace : (q.log2 - 52) * 2 ^ 52 ≤ (k + 1021) * 2 ^ 52 :=
    Nat.mul_le_mul_right _ (log2_lt_of_lt hquotient)
  have hkept : q / Nat.pow 2 (q.log2 - 52) < 2 ^ 53 := div_place_lt q
  generalize roundQuotient _ _ = rounded at hround ⊢
  have hrounded : rounded ≤ 2 * 2 ^ 52 := Nat.le_trans hround hkept
  calc (q.log2 - 52) * 2 ^ 52 + rounded
      ≤ (k + 1021) * 2 ^ 52 + 2 * 2 ^ 52 := Nat.add_le_add hplace hrounded
    _ = (k + 1023) * 2 ^ 52 := (Nat.add_mul (k + 1021) 2 (2 ^ 52)).symm

theorem magnitude_ofFraction (num den : Nat) :
    (ofFraction num den).magnitude = nearestMagnitude num den := by
  have hle : nearestMagnitude num den ≤ infinityMagnitude := by
    rw [nearestMagnitude]
    exact Nat.min_le_left _ _
  have hlt : infinityMagnitude < 2 ^ 63 := by
    decide
  exact magnitude_ofMagnitude _ (Nat.lt_of_le_of_lt hle hlt)

theorem bounded_ofFraction {num den k : Nat} (h : num < den * 2 ^ k) :
    Bounded k (ofFraction num den) := by
  rw [Bounded, magnitude_ofFraction]
  exact nearestMagnitude_le h

theorem Bounded.isFinite {x : Binary64} {k : Nat} (h : Bounded k x) (hk : k < 1024) :
    x.isFinite = true := by
  rw [Bounded] at h
  rw [Binary64.isFinite, decide_eq_true_eq, infinityMagnitude]
  omega

theorem significand_lt (x : Binary64) : x.significand < 2 ^ 53 := by
  unfold significand
  split <;> omega

theorem Bounded.units_lt {x : Binary64} {k : Nat} (h : Bounded k x) : x.units < 2 ^ (k + 1075) := by
  have hplace : x.magnitude / 2 ^ 52 ≤ k + 1023 := by
    apply Nat.div_le_of_le_mul
    rw [Nat.mul_comm]
    exact h
  have hulp : x.ulp ≤ 2 ^ (k + 1022) :=
    Nat.pow_le_pow_right (by decide) (Nat.sub_le_of_le_add hplace)
  have hpow : 2 ^ 53 * 2 ^ (k + 1022) = 2 ^ (k + 1075) := by
    rw [← Nat.pow_add, Nat.add_comm]
  rw [units, ← hpow]
  exact Nat.mul_lt_mul_of_lt_of_le x.significand_lt hulp (Nat.two_pow_pos _)

/-! ## Decimal numerals -/

theorem bounded_ofNat {n : Nat} (h : n < 2 ^ 64) : Bounded 64 (ofNat n) :=
  bounded_ofFraction (by omega)

theorem isFinite_ofNat {n : Nat} (h : n < 2 ^ 64) : (ofNat n).isFinite = true :=
  (bounded_ofNat h).isFinite (by decide)

theorem isFinite_ofInt {n : Int} (h : n.natAbs < 2 ^ 64) : (ofInt n).isFinite = true := by
  rw [ofInt]
  split
  · rw [isFinite_neg, isFinite_ofNat h]
  · exact isFinite_ofNat h

theorem le_roundQuotient (num den : Nat) : num / den ≤ roundQuotient num den := by
  simp only [roundQuotient]
  split
  · omega
  · split <;> omega

theorem le_ulp {x : Binary64} {k : Nat} (h : k + 1 ≤ x.magnitude / 2 ^ 52) : 2 ^ k ≤ x.ulp :=
  Nat.pow_le_pow_right (by decide) (Nat.le_sub_of_add_le h)

theorem unitsPerOne_eq : unitsPerOne = 2 ^ 1074 := by
  rw [unitsPerOne]

/-- The magnitude of a whole number above zero is at least that of one. -/
theorem le_magnitude_ofNat {n : Nat} (h : 0 < n) : 1023 * 2 ^ 52 ≤ (ofNat n).magnitude := by
  have hscaled : 2 ^ 1074 ≤ n * unitsPerOne / 1 := by
    rw [Nat.div_one, ← unitsPerOne_eq]
    exact Nat.le_mul_of_pos_left unitsPerOne h
  have hround := le_roundQuotient (n * unitsPerOne)
    (1 * Nat.pow 2 ((n * unitsPerOne / 1).log2 - 52))
  rw [← Nat.div_div_eq_div_mul] at hround
  rw [ofNat, magnitude_ofFraction, nearestMagnitude]
  generalize n * unitsPerOne / 1 = q at hscaled hround ⊢
  generalize roundQuotient _ _ = rounded at hround ⊢
  have hne : q ≠ 0 := Nat.ne_of_gt (Nat.lt_of_lt_of_le (Nat.two_pow_pos _) hscaled)
  have hlog : 1074 ≤ q.log2 := (Nat.le_log2 hne).2 hscaled
  have hkept : 2 ^ 52 ≤ rounded := by
    have hself : 2 ^ (52 + (q.log2 - 52)) ≤ q := by
      rw [Nat.add_sub_cancel' (by omega)]
      exact Nat.log2_self_le hne
    rw [Nat.pow_add] at hself
    exact Nat.le_trans ((Nat.le_div_iff_mul_le (Nat.two_pow_pos _)).2 hself) hround
  have hplace : 1022 * 2 ^ 52 ≤ (q.log2 - 52) * 2 ^ 52 :=
    Nat.mul_le_mul_right _ (by omega)
  apply Nat.le_min.2 ⟨by decide, _⟩
  calc 1023 * 2 ^ 52
      = 1022 * 2 ^ 52 + 2 ^ 52 := by decide
    _ ≤ (q.log2 - 52) * 2 ^ 52 + rounded := Nat.add_le_add hplace hkept

theorem unitsPerOne_le_ofNat {n : Nat} (h : 0 < n) : unitsPerOne ≤ (ofNat n).units := by
  have hmagnitude := le_magnitude_ofNat h
  have hsignificand : 2 ^ 52 ≤ (ofNat n).significand := by
    have hnormal : ¬ (ofNat n).magnitude < 2 ^ 52 :=
      Nat.not_lt.2 (Nat.le_trans (by decide) hmagnitude)
    rw [significand, if_neg hnormal]
    exact Nat.le_add_right _ _
  have hplace : 1023 ≤ (ofNat n).magnitude / 2 ^ 52 :=
    (Nat.le_div_iff_mul_le (Nat.two_pow_pos _)).2 hmagnitude
  have hulp := le_ulp hplace
  calc unitsPerOne
      = 2 ^ 52 * 2 ^ 1022 := by decide +kernel
    _ ≤ (ofNat n).units := Nat.mul_le_mul hsignificand hulp

theorem Bounded.quotient {x : Binary64} {k : Nat} (h : Bounded k x) (exponent : Nat) :
    Bounded (k + 1) (quotient x (powerOfTen exponent)) := by
  apply bounded_ofFraction
  have hunits := unitsPerOne_le_ofNat (Nat.pow_pos (by decide) : 0 < Nat.pow 10 exponent)
  have hlt : x.units < unitsPerOne * 2 ^ (k + 1) := by
    rw [Nat.mul_comm, two_pow_mul_unitsPerOne]
    exact h.units_lt
  exact Nat.lt_of_lt_of_le hlt (Nat.mul_le_mul_right _ hunits)

theorem isFinite_scaleDown {n : Nat} (h : n < 2 ^ 64) (exponent : Nat) :
    (scaleDown (ofNat n) exponent).isFinite = true := by
  have hbounded := bounded_ofNat h
  rw [scaleDown]
  split
  case isTrue => exact (hbounded.quotient exponent).isFinite (by decide)
  case isFalse =>
    split
    case isTrue =>
      have hfirst := hbounded.quotient maxPower
      exact (hfirst.quotient (exponent - maxPower)).isFinite (by decide)
    case isFalse => exact isFinite_zero

theorem isFinite_scaleUp {x scaled : Binary64} {exponent : Nat}
    (h : scaleUp x exponent = some scaled) : scaled.isFinite = true := by
  unfold scaleUp at h
  generalize product x (powerOfTen exponent) = found at h
  split at h
  case isTrue =>
    cases hfinite : found.isFinite with
    | false => simp [hfinite] at h
    | true =>
        simp only [hfinite, if_true, Option.some.injEq] at h
        exact h ▸ hfinite
  case isFalse =>
    split at h
    case isTrue =>
      cases h
      exact isFinite_zero
    case isFalse => cases h

theorem isFinite_ofScientific {negative : Bool} {significand : Nat} {exponent : Int} {x : Binary64}
    (hsignificand : significand < 2 ^ 64)
    (h : ofScientific negative significand exponent = some x) : x.isFinite = true := by
  -- the sign is put on a number that is finite without it
  have hsigned : ∀ unsigned : Option Binary64, (∀ y, unsigned = some y → y.isFinite = true) →
      (if negative then unsigned.map neg else unsigned) = some x → x.isFinite = true := by
    intro unsigned hunsigned hx
    cases negative with
    | false => exact hunsigned x hx
    | true =>
        obtain ⟨y, hy, rfl⟩ := Option.map_eq_some_iff.1 hx
        rw [isFinite_neg]
        exact hunsigned y hy
  unfold ofScientific at h
  cases exponent with
  | ofNat up =>
      exact hsigned _ (fun y hy => isFinite_scaleUp hy) h
  | negSucc down =>
      refine hsigned _ ?_ h
      intro y hy
      cases hy
      exact isFinite_scaleDown hsignificand (down + 1)

end Binary64

end MapCatalog
