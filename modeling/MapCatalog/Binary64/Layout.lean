import MapCatalog.Binary64.Shortest

/-! # Number texts -/

namespace MapCatalog

namespace Binary64

structure Layout where
  /-- Whether a number whose first digit has this exponent is written without an exponent. -/
  positional : Int → Bool
  /-- What follows the digits of a whole number that is written without an exponent. -/
  wholeEnd : List Char

/-- Numbers in documents: no exponent from `10 ^ (-5)` up to `10 ^ 16`, and always a point. -/
def documentLayout : Layout :=
  ⟨fun e => decide (-5 ≤ e) && decide (e < 16), ".0".toList⟩

/-- Numbers in messages: never an exponent, and a point only before a fraction. -/
def messageLayout : Layout :=
  ⟨fun _ => true, []⟩

/-- Digits with the point at its place; the first digit has exponent `lead`. -/
def positionalText (layout : Layout) (digits : List Char) (lead : Int) : List Char :=
  match lead with
  | .negSucc below => '0' :: '.' :: (List.replicate below '0' ++ digits)
  | .ofNat above =>
      if digits.length ≤ above + 1 then
        digits ++ List.replicate (above + 1 - digits.length) '0' ++ layout.wholeEnd
      else
        digits.take (above + 1) ++ '.' :: digits.drop (above + 1)

def exponentText (digits : List Char) (lead : Int) : List Char :=
  let sign := if lead < 0 then '-' else '+'
  let fraction := if digits.length ≤ 1 then [] else '.' :: digits.drop 1
  digits.take 1 ++ fraction ++ 'e' :: sign :: Nat.toDigits 10 lead.natAbs

def finiteText (layout : Layout) (x : Binary64) : List Char :=
  let d := x.shortest
  let digits := Nat.toDigits 10 d.digits
  let unsigned :=
    if layout.positional d.leading then positionalText layout digits d.leading
    else exponentText digits d.leading
  if x.negative then '-' :: unsigned else unsigned

def message (x : Binary64) : String :=
  if x.isFinite then String.ofList (finiteText messageLayout x)
  else if x.isNaN then "NaN"
  else if x.negative then "-inf"
  else "inf"

end Binary64

end MapCatalog
