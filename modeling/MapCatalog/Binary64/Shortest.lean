import MapCatalog.Binary64.Rounding

/-! # Shortest decimals

The shortest decimal has the fewest digits among those that round to the number, and is the nearest of these.  The
search looks at the grids of one, two, … digits, on each only at the two grid points around the value.
-/

namespace MapCatalog

/-- The number `digits * 10 ^ exponent`. -/
structure Decimal where
  digits : Nat
  exponent : Int
deriving DecidableEq

namespace Decimal

/-- Take trailing zeros out of the digits, at most `fuel` of them. -/
def trimZeros : Nat → Decimal → Decimal
  | 0, d => d
  | fuel + 1, d =>
      if d.digits % 10 = 0 ∧ d.digits ≠ 0 then
        trimZeros fuel ⟨d.digits / 10, d.exponent + 1⟩
      else
        d

def leading (d : Decimal) : Int :=
  d.exponent + ((Nat.toDigits 10 d.digits).length - 1 : Nat)

end Decimal

namespace Binary64

def tenPower (e : Int) : Nat × Nat :=
  match e with
  | .ofNat up => (Nat.pow 10 up, 1)
  | .negSucc down => (1, Nat.pow 10 (down + 1))

/--
Four times the bounds, in units, between which every real number rounds to `x`.  Below a power of
two the numbers lie twice as dense.
-/
def quarterBounds (x : Binary64) : Nat × Nat :=
  if x.significand = 2 ^ 52 ∧ 1 < x.ulp then
    (4 * x.units - x.ulp, 4 * x.units + 2 * x.ulp)
  else
    (4 * x.units - 2 * x.ulp, 4 * x.units + 2 * x.ulp)

/-- Whether `digits * 10 ^ e` rounds to `x`; the bounds themselves do when the significand is even. -/
def covers (x : Binary64) (digits : Nat) (e : Int) : Bool :=
  let (up, down) := tenPower e
  let (low, high) := x.quarterBounds
  let point := 4 * digits * up * unitsPerOne
  if x.significand % 2 = 0 then
    decide (low * down ≤ point) && decide (point ≤ high * down)
  else
    decide (low * down < point) && decide (point < high * down)

/-- The exponent of the first decimal digit of a number that is not zero. -/
def leadingExponent (x : Binary64) : Int :=
  let whole := x.units / unitsPerOne
  if 0 < whole then
    ((Nat.toDigits 10 whole).length - 1 : Nat)
  else
    let places := (List.range 324).find? fun below =>
      unitsPerOne ≤ x.units * Nat.pow 10 (below + 1)
    Int.negSucc (places.getD 323)

/-- The nearest grid point with `10 ^ e` between the points that rounds to `x`, if one does. -/
def onGrid (x : Binary64) (e : Int) : Option Decimal :=
  let (up, down) := tenPower e
  let num := x.units * down
  let den := up * unitsPerOne
  let low := num / den
  match x.covers low e, x.covers (low + 1) e with
  | true, true => some ⟨roundQuotient num den, e⟩
  | true, false => some ⟨low, e⟩
  | false, true => some ⟨low + 1, e⟩
  | false, false => none

def exact (x : Binary64) : Decimal :=
  ⟨x.units * 5 ^ 1074, -1074⟩

/-- The shortest decimal that rounds to the absolute value of a finite number. -/
def shortest (x : Binary64) : Decimal :=
  if x.units = 0 then
    ⟨0, 0⟩
  else
    let lead := x.leadingExponent
    let found := (List.range 17).findSome? fun (i : Nat) => x.onGrid (lead - (i : Int))
    Decimal.trimZeros 1100 (found.getD x.exact)

end Binary64

end MapCatalog
