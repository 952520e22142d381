import NodePipeline.Time.Calendar
import NodePipeline.Binary64.Arithmetic

/-!
# Instants and durations

Points in time, to the nanosecond, and how a clock shows them. A leap second is
shown as the second 60 of its minute; its nanoseconds go on from those of the
second before. Durations are whole seconds and nanoseconds.
-/

namespace NodePipeline

/-! ## Instants -/

structure Instant where
  /-- Since the beginning of 1970, leap seconds not counted. -/
  seconds : Int
  nanos : Nat
deriving DecidableEq

instance : Inhabited Instant := ⟨⟨0, 0⟩⟩

/-- A date and a time of the day. -/
structure Civil where
  date : Date
  hour : Nat
  minute : Nat
  second : Nat
  nanos : Nat
deriving DecidableEq

def epochDay : Int := 719528

namespace Instant

def isBefore (a b : Instant) : Bool :=
  decide (a.seconds < b.seconds ∨ (a.seconds = b.seconds ∧ a.nanos < b.nanos))

/-- What a clock shows in universal time. -/
def civil (t : Instant) : Civil :=
  let inDay := (t.seconds % 86400).toNat
  let leap := t.nanos / 1000000000
  ⟨.ofNumber (epochDay + t.seconds / 86400), inDay / 3600, inDay / 60 % 60, inDay % 60 + leap,
    t.nanos % 1000000000⟩

end Instant

/-- The instant at which a clock that is ahead of universal time by the offset
shows this. -/
def Civil.toInstant (c : Civil) (offset : Int) : Instant :=
  let second := min c.second 59
  ⟨(c.date.number - epochDay) * 86400 + (c.hour * 3600 + c.minute * 60 + second : Nat) - offset,
    c.nanos + (c.second - second) * 1000000000⟩

/-! ## Durations -/

structure Duration where
  seconds : Nat
  nanos : Nat
deriving DecidableEq

namespace Duration

/-- Whole seconds are counted in 64 bits. -/
def secondsLimit : Nat := 0x10000000000000000

def ofNanos (total : Nat) : Duration := ⟨total / 1000000000, total % 1000000000⟩

def ofMillis (total : Nat) : Duration := ofNanos (total * 1000000)

def toNanos (t : Duration) : Nat := t.seconds * 1000000000 + t.nanos

/-- A number of seconds that is not negative, rounded to nanoseconds with halves
to the even neighbour. -/
def ofSeconds? (x : Binary64) : Option Duration :=
  if !x.isFinite || (x.isNegative && !x.isZero) then none
  else
    let (num, den) := x.toRatio
    let t := ofNanos (Binary64.roundHalfEven (num * 1000000000) den)
    if t.seconds < secondsLimit then some t else none

/-- The number of seconds. Seconds and fraction are rounded each, and so is their sum. -/
def toSeconds (t : Duration) : Binary64 :=
  (Binary64.ofInt t.seconds).add ((Binary64.ofInt t.nanos).div (Binary64.ofInt (1000000000)))

end Duration

end NodePipeline
