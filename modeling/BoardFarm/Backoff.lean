/-!
# Back-off

The delay before a further attempt doubles from a base up to a cap. The base and the cap are
taken as double-precision numbers, and the delay is cut to 64 bits.

* `Backoff.delay`: the delay in milliseconds.
-/

namespace BoardFarm

/-- The delays of repeated attempts, in milliseconds. -/
structure Backoff where
  base : Nat
  cap : Nat
  deriving DecidableEq, Repr

namespace Backoff

/-- A tenth of a second, up to half a minute. -/
def standard : Backoff := ⟨100, 30000⟩

/-- The nearest number with at most 53 significant bits, ties to even. -/
def toSignificand (n : Nat) : Nat :=
  let unit := 1 <<< (n.log2 - 52)
  let q := n / unit
  let r := n % unit
  let rounded :=
    if 2 * r < unit then q
    else if unit < 2 * r then q + 1
    else q + q % 2
  rounded * unit

/-- The doublings stop here. -/
def maxDoublings : Nat := 30

def longest : Nat := UInt64.size - 1

def delay (b : Backoff) (attempt : Nat) : Nat :=
  min longest
    (min (toSignificand b.base <<< min attempt maxDoublings) (toSignificand b.cap))

end Backoff

end BoardFarm
