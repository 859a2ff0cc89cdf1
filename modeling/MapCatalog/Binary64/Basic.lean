/-! # Double precision numbers

Every finite number of the format is a whole multiple of `2 ^ (-1074)`, so its exact value is a natural number of
such units together with a sign, and all rounding is done on natural numbers.
-/

namespace MapCatalog

-- Numerals are raised to powers as in the core library, whatever else a module imports.
attribute [default_instance 20000] instPowNat

/-- A number of the 64-bit binary floating point format, as its bits. -/
structure Binary64 where
  bits : UInt64
deriving DecidableEq, Inhabited

namespace Binary64

def negative (x : Binary64) : Bool :=
  2 ^ 63 ≤ x.bits.toNat

/-- The bits below the sign.  They grow with the absolute value. -/
def magnitude (x : Binary64) : Nat :=
  x.bits.toNat % 2 ^ 63

/-- The magnitude of the infinities.  Everything above it is not a number. -/
def infinityMagnitude : Nat :=
  2047 * 2 ^ 52

def ofMagnitude (negative : Bool) (magnitude : Nat) : Binary64 :=
  ⟨UInt64.ofNat ((if negative then 2 ^ 63 else 0) + magnitude)⟩

def isFinite (x : Binary64) : Bool :=
  x.magnitude < infinityMagnitude

def isNaN (x : Binary64) : Bool :=
  infinityMagnitude < x.magnitude

theorem magnitude_lt (x : Binary64) :
    x.magnitude < 2 ^ 63 :=
  Nat.mod_lt _ (by decide)

theorem ofMagnitude_magnitude (x : Binary64) :
    ofMagnitude x.negative x.magnitude = x := by
  obtain ⟨bits⟩ := x
  have hlt := bits.toNat_lt
  have hsum : (if decide (2 ^ 63 ≤ bits.toNat) = true then 2 ^ 63 else 0) +
      bits.toNat % 2 ^ 63 = bits.toNat := by
    by_cases h : 2 ^ 63 ≤ bits.toNat
    · rw [if_pos (decide_eq_true h)]
      omega
    · rw [if_neg (by simpa using h)]
      omega
  unfold ofMagnitude negative magnitude
  rw [hsum, UInt64.ofNat_toNat]

/-! ## Exact values -/

def ulp (x : Binary64) : Nat :=
  Nat.pow 2 (x.magnitude / 2 ^ 52 - 1)

/-- The significand, with its leading one unless the number is subnormal. -/
def significand (x : Binary64) : Nat :=
  if x.magnitude < 2 ^ 52 then x.magnitude else 2 ^ 52 + x.magnitude % 2 ^ 52

/-- The absolute value of a finite number, in units of `2 ^ (-1074)`. -/
def units (x : Binary64) : Nat :=
  x.significand * x.ulp

def unitsPerOne : Nat :=
  2 ^ 1074

/-! ## Order -/

/--
The key of the total order: `-NaN < -∞ < … < -0 < +0 < … < +∞ < NaN`.
-/
def totalKey (x : Binary64) : Int :=
  if x.negative then -(x.magnitude : Int) - 1 else x.magnitude

/-- The key of the numerical order of numbers that are not NaN; the two zeros share one. -/
def valueKey (x : Binary64) : Int :=
  if x.negative then -(x.magnitude : Int) else x.magnitude

def atMost (x y : Binary64) : Bool :=
  !x.isNaN && !y.isNaN && decide (x.valueKey ≤ y.valueKey)

theorem eq_of_totalKey_eq {x y : Binary64} (h : x.totalKey = y.totalKey) :
    x = y := by
  have hsign : x.negative = y.negative := by
    cases hx : x.negative <;> cases hy : y.negative <;>
      simp [totalKey, hx, hy] at h ⊢ <;> omega
  have hmag : x.magnitude = y.magnitude := by
    cases hx : x.negative <;> cases hy : y.negative <;>
      simp [totalKey, hx, hy] at h <;> omega
  rw [← ofMagnitude_magnitude x, ← ofMagnitude_magnitude y, hsign, hmag]

theorem totalKey_eq_iff {x y : Binary64} : x.totalKey = y.totalKey ↔ x = y :=
  ⟨eq_of_totalKey_eq, congrArg totalKey⟩

end Binary64

end MapCatalog
