import BoardFarm.SortedMap

/-!
# Retry budgets

A budget counts the failures of each key within a window that starts at the first of them. A
key with more failures than allowed is exhausted until its window has passed. Times are
milliseconds.

* `RetryBudget.fail`, `RetryBudget.isExhausted`, `RetryBudget.clear`, `RetryBudget.prune`.
-/

namespace BoardFarm

/-- The failures of one key in its current window. -/
structure FailureWindow where
  count : Nat
  since : Nat
  deriving DecidableEq, Repr

/-- Failure counts by key. -/
structure RetryBudget where
  maxRetries : Nat
  window : Nat
  failures : SortedMap String FailureWindow
  deriving DecidableEq, Repr

namespace RetryBudget

def fresh (maxRetries window : Nat) : RetryBudget := ⟨maxRetries, window, SortedMap.empty⟩

/-- Three retries within five minutes. -/
def standard : RetryBudget := fresh 3 300000

/-- Whether the window of a key has passed. -/
def hasPassed (b : RetryBudget) (now : Nat) (w : FailureWindow) : Bool :=
  b.window < now - w.since

/-- The window of a key at a moment: the running one, or a new one without failures. -/
def current (b : RetryBudget) (now : Nat) (key : String) : FailureWindow :=
  match b.failures.get? key with
  | none => ⟨0, now⟩
  | some w => if b.hasPassed now w then ⟨0, now⟩ else w

/-- Counts a failure; tells whether the key is now exhausted. -/
def fail (b : RetryBudget) (now : Nat) (key : String) : Bool × RetryBudget :=
  let w := b.current now key
  let w := { w with count := w.count + 1 }
  (b.maxRetries < w.count, { b with failures := b.failures.insert key w })

/-- Whether a key has no retry left in a running window. -/
def isExhausted (b : RetryBudget) (now : Nat) (key : String) : Bool :=
  match b.failures.get? key with
  | none => false
  | some w => !b.hasPassed now w && b.maxRetries < w.count

/-- Forgets the failures of a key. -/
def clear (b : RetryBudget) (key : String) : RetryBudget :=
  { b with failures := b.failures.erase key }

/-- Forgets the keys whose windows have passed. -/
def prune (b : RetryBudget) (now : Nat) : RetryBudget :=
  { b with failures := b.failures.filter (fun _ w => !b.hasPassed now w) }

end RetryBudget

end BoardFarm
