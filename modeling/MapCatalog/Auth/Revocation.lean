import MapCatalog.Auth.Time
import MapCatalog.Sequence.Table

/-! # Revocations

An entry counts as long as less than the time to live has passed since it was made; one that no longer counts is
dropped when it is looked at.
-/

namespace MapCatalog

/-- The revoked subjects and when each was revoked last. -/
structure Revocations where
  /-- The nanoseconds for which an entry counts. -/
  ttlNanos : Nat
  entries : Table String Instant
deriving DecidableEq

namespace Revocations

def dayInSeconds : Nat :=
  86400

def lasting (ttlNanos : Nat) : Revocations :=
  ⟨ttlNanos, .empty⟩

def new (ttlSeconds : Nat) : Revocations :=
  lasting (ttlSeconds * 1000000000)

/-- The time for which an entry counts, as far as it can be compared with a time that has passed. -/
def ttl (revocations : Revocations) : Int :=
  revocations.ttlNanos

def size (revocations : Revocations) : Nat :=
  revocations.entries.size

/-- Whether an entry made at a moment still counts. -/
def live (revocations : Revocations) (now revokedAt : Instant) : Bool :=
  decide (now.since revokedAt < revocations.ttl)

def revoke (revocations : Revocations) (subject : String) (now : Instant) : Revocations :=
  { revocations with entries := revocations.entries.insert subject now }

/-- Whether a subject is revoked; an entry of it that no longer counts is dropped. -/
def check (revocations : Revocations) (subject : String) (now : Instant) : Bool × Revocations :=
  match revocations.entries.get? subject with
  | none => (false, revocations)
  | some revokedAt =>
      if revocations.live now revokedAt then
        (true, revocations)
      else
        (false, { revocations with entries := revocations.entries.erase subject })

/-- Drop every entry that no longer counts, and say how many those were. -/
def purge (revocations : Revocations) (now : Instant) : Nat × Revocations :=
  let kept := revocations.entries.filter fun entry => revocations.live now entry.2
  (revocations.size - kept.size, { revocations with entries := kept })

/-- The digits of a fraction that counts in parts of which a unit has `10 ^ places`, without the zeros
at the end. -/
def fractionDigits : Nat → Nat → List Char
  | 0, _ => []
  | places + 1, parts =>
      if parts = 0 then []
      else
        Nat.digitChar (parts / Nat.pow 10 places) ::
          fractionDigits places (parts % Nat.pow 10 places)

def timeIn (unit : String) (places nanos : Nat) : String :=
  let fraction := fractionDigits places (nanos % Nat.pow 10 places)
  toString (nanos / Nat.pow 10 places) ++
    (if fraction.isEmpty then "" else "." ++ String.ofList fraction) ++ unit

/-- The time for which an entry counts, in the largest unit of which it has one. -/
def ttlText (revocations : Revocations) : String :=
  let nanos := revocations.ttlNanos
  if 1000000000 ≤ nanos then timeIn "s" 9 nanos
  else if 1000000 ≤ nanos then timeIn "ms" 6 nanos
  else if 1000 ≤ nanos then timeIn "µs" 3 nanos
  else timeIn "ns" 0 nanos

def describe (revocations : Revocations) : String :=
  "InMemoryRevocationStore \x7b ttl: " ++ revocations.ttlText ++ ", entries: " ++
    toString revocations.size ++ " \x7d"

end Revocations

end MapCatalog
