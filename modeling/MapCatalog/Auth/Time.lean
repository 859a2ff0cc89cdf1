/-! # Moments and lifetimes

A moment can be written in a token as long as it lies in the years -262143 to 262142.
-/

namespace MapCatalog

/-- A moment, in nanoseconds since the start of 1970. -/
structure Instant where
  nanos : Int
deriving DecidableEq, Inhabited

structure Span where
  nanos : Int
deriving DecidableEq, Inhabited

def nanosPerSecond : Int :=
  1000000000

namespace Instant

instance : LE Instant :=
  ⟨fun earlier later => earlier.nanos ≤ later.nanos⟩

instance (earlier later : Instant) : Decidable (earlier ≤ later) :=
  inferInstanceAs (Decidable (earlier.nanos ≤ later.nanos))

def ofSeconds (seconds : Int) : Instant :=
  ⟨seconds * nanosPerSecond⟩

/-- The whole seconds since the start of 1970, rounded down. -/
def seconds (moment : Instant) : Int :=
  moment.nanos / nanosPerSecond

theorem seconds_ofSeconds (seconds : Int) :
    (ofSeconds seconds).seconds = seconds := by
  simp only [ofSeconds, Instant.seconds, nanosPerSecond]
  omega

/-- The first second of the year -262143. -/
def firstSecond : Int :=
  -8334601228800

/-- The last second of the year 262142. -/
def lastSecond : Int :=
  8210266876799

def representable (moment : Instant) : Bool :=
  firstSecond ≤ moment.seconds && moment.seconds ≤ lastSecond

theorem representable_iff {moment : Instant} :
    moment.representable = true ↔ firstSecond ≤ moment.seconds ∧ moment.seconds ≤ lastSecond := by
  simp [representable]

/-- The moment a span later, if it has a calendar date. -/
def add? (moment : Instant) (span : Span) : Option Instant :=
  let later : Instant := ⟨moment.nanos + span.nanos⟩
  if later.representable then some later else none

/-- The time from one moment to a later one. -/
def since (moment earlier : Instant) : Int :=
  moment.nanos - earlier.nanos

theorem le_trans {first second third : Instant} (h : first ≤ second) (h' : second ≤ third) :
    first ≤ third :=
  Int.le_trans h h'

theorem since_le_since_left {moment later : Instant} (h : moment ≤ later) (earlier : Instant) :
    moment.since earlier ≤ later.since earlier :=
  Int.sub_le_sub_right h earlier.nanos

theorem since_le_since_right {earlier between : Instant} (h : earlier ≤ between)
    (moment : Instant) : moment.since between ≤ moment.since earlier :=
  Int.sub_le_sub_left h moment.nanos

end Instant

namespace Span

/-- The most whole seconds that a lifetime can have: those of `2 ^ 63 - 1` milliseconds. -/
def maxSeconds : Int :=
  9223372036854775

def longest : Span :=
  ⟨9223372036854775807 * 1000000⟩

def ofSeconds? (seconds : Int) : Option Span :=
  if -maxSeconds ≤ seconds ∧ seconds ≤ maxSeconds then some ⟨seconds * nanosPerSecond⟩ else none

def millis (span : Span) : Int :=
  span.nanos / 1000000

end Span

end MapCatalog
