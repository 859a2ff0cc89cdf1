/-! # Base64 for addresses

Decoding is strict: it takes no padding, no other character, no length that no encoding has, and no left-over bits but
zeros.
-/

namespace MapCatalog

namespace Base64Url

def sextetChar (n : Nat) : Char :=
  if n < 26 then Char.ofNat (n + 65)
  else if n < 52 then Char.ofNat (n - 26 + 97)
  else if n < 62 then Char.ofNat (n - 52 + 48)
  else if n = 62 then '-'
  else '_'

def sextetValue? (c : Char) : Option Nat :=
  if 'A' ≤ c ∧ c ≤ 'Z' then some (c.toNat - 65)
  else if 'a' ≤ c ∧ c ≤ 'z' then some (c.toNat - 97 + 26)
  else if '0' ≤ c ∧ c ≤ '9' then some (c.toNat - 48 + 52)
  else if c = '-' then some 62
  else if c = '_' then some 63
  else none

theorem sextetValue?_sextetChar {n : Nat} (h : n < 64) :
    sextetValue? (sextetChar n) = some n := by
  have hall : ∀ i : Fin 64, sextetValue? (sextetChar i.val) = some i.val := by decide
  exact hall ⟨n, h⟩

/-- Three bytes make four characters; one or two left over make two or three. -/
def encode : List UInt8 → List Char
  | a :: b :: c :: rest =>
      sextetChar (a.toNat / 4) ::
      sextetChar (a.toNat % 4 * 16 + b.toNat / 16) ::
      sextetChar (b.toNat % 16 * 4 + c.toNat / 64) ::
      sextetChar (c.toNat % 64) :: encode rest
  | [a, b] =>
      [sextetChar (a.toNat / 4), sextetChar (a.toNat % 4 * 16 + b.toNat / 16),
       sextetChar (b.toNat % 16 * 4)]
  | [a] => [sextetChar (a.toNat / 4), sextetChar (a.toNat % 4 * 16)]
  | [] => []

def join? : List Nat → Option (List UInt8)
  | a :: b :: c :: d :: rest =>
      (join? rest).map fun more =>
        UInt8.ofNat (a * 4 + b / 16) :: UInt8.ofNat (b % 16 * 16 + c / 4) ::
          UInt8.ofNat (c % 4 * 64 + d) :: more
  | [a, b, c] =>
      if c % 4 = 0 then some [UInt8.ofNat (a * 4 + b / 16), UInt8.ofNat (b % 16 * 16 + c / 4)]
      else none
  | [a, b] => if b % 16 = 0 then some [UInt8.ofNat (a * 4 + b / 16)] else none
  | [_] => none
  | [] => some []

def decode? (chars : List Char) : Option (List UInt8) :=
  (chars.mapM sextetValue?).bind join?

end Base64Url

end MapCatalog
