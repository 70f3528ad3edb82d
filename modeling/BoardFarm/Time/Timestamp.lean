/-!
# Points in time

A timestamp counts seconds from 1970-01-01T00:00:00Z and holds a part of a second in
nanoseconds; the part of a leap second is a full second or more. Clocks and deadlines need
only whole milliseconds.

* `Timestamp.toMillis`, `Timestamp.ofMillis`: the two views of one moment.
-/

namespace BoardFarm

/-- A moment to the nanosecond. -/
structure Timestamp where
  seconds : Int
  nanos : Nat
  deriving DecidableEq, Repr

namespace Timestamp

/-- The moment of a clock reading in milliseconds. -/
def ofMillis (ms : Nat) : Timestamp := ⟨(ms / 1000 : Nat), ms % 1000 * 1000000⟩

/-- The whole milliseconds of a moment. -/
def toMillis (t : Timestamp) : Int := t.seconds * 1000 + (t.nanos / 1000000 : Nat)

/-- The last millisecond that a deadline can name, at the end of the year 262142. -/
def latestMillis : Nat := 8210266876799999

/-- The deadline some time after a moment, in milliseconds. -/
def deadline (now delay : Nat) : Nat := min (now + delay) latestMillis

end Timestamp

end BoardFarm
