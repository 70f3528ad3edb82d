import BoardFarm.Reconciliation.RetryBudget
import Mathlib.Data.List.Basic

/-!
# Failure windows

A budget has a count and a start on record for each key that has failed, and decides anew at every
call whether the recorded window has passed. Windows that have passed may be on record or may have
been pruned: no call can tell. So a budget answers by the failures of the window that is running for
the key, and these are determined by the earlier calls for this key alone.

* `RetryBudget.Shows`: a window is on record, or it has passed and is not.
* `BudgetCall.expected`: the answer to a call, by the failures in the window of its key.
* `RetryBudget.answers_eq_reference`: the answers of a budget, in which pruning does not show.
-/

namespace BoardFarm

/-- The window of a key behind one more failure. -/
def FailureWindow.next (span now : Nat) : Option FailureWindow → FailureWindow
  | none => ⟨1, now⟩
  | some w => if w.since + span < now then ⟨1, now⟩ else ⟨w.count + 1, w.since⟩

namespace RetryBudget

/-! ## One key -/

/-- A budget has the window of a key on record, or the window has passed and is forgotten. -/
def Shows (b : RetryBudget) (now : Nat) (key : String) (w : Option FailureWindow) : Prop :=
  b.failures.get? key = w ∨
    b.failures.get? key = none ∧ ∃ v, w = some v ∧ v.since + b.window < now

variable {b : RetryBudget} {now now' : Nat} {key key' : String} {w : Option FailureWindow}

theorem hasPassed_eq_true_iff {w : FailureWindow} :
    b.hasPassed now w = true ↔ w.since + b.window < now := by
  unfold hasPassed
  rw [decide_eq_true_iff]
  omega

theorem Shows.later (h : b.Shows now key w) (hle : now ≤ now') : b.Shows now' key w := by
  rcases h with hsame | ⟨hnone, v, hv, hpassed⟩
  · exact Or.inl hsame
  · exact Or.inr ⟨hnone, v, hv, Nat.lt_of_lt_of_le hpassed hle⟩

theorem Shows.prune (h : b.Shows now key w) : (b.prune now).Shows now key w := by
  have hget : (b.prune now).failures.get? key =
      (b.failures.get? key).filter (fun v => !b.hasPassed now v) := SortedMap.get?_filter ..
  show (b.prune now).failures.get? key = w ∨ _
  rw [hget]
  rcases h with rfl | ⟨hnone, hv⟩
  · cases hv : b.failures.get? key with
    | none => exact Or.inl rfl
    | some v =>
      by_cases hpassed : b.hasPassed now v = true
      · exact Or.inr ⟨by simp [Option.filter, hpassed], v, rfl, hasPassed_eq_true_iff.mp hpassed⟩
      · exact Or.inl (by simp [Option.filter, hpassed])
  · exact Or.inr ⟨by rw [hnone]; rfl, hv⟩

theorem shows_clear (b : RetryBudget) (now : Nat) (key : String) :
    (b.clear key).Shows now key none :=
  Or.inl ((SortedMap.get?_erase ..).trans (if_pos rfl))

theorem Shows.clear_of_ne (h : b.Shows now key w) (hne : key' ≠ key) :
    (b.clear key').Shows now key w := by
  have hget : (b.clear key').failures.get? key = b.failures.get? key :=
    (SortedMap.get?_erase ..).trans (if_neg hne)
  unfold Shows
  rw [hget]
  exact h

/-- A failure counts in the window that is shown, or opens a new one. -/
theorem Shows.fail (h : b.Shows now key w) :
    b.fail now key = (decide (b.maxRetries < (FailureWindow.next b.window now w).count),
      { b with failures := b.failures.insert key (FailureWindow.next b.window now w) }) := by
  have hcount : ⟨(b.current now key).count + 1, (b.current now key).since⟩ =
      FailureWindow.next b.window now w := by
    unfold current FailureWindow.next
    rcases h with rfl | ⟨hnone, v, rfl, hpassed⟩
    · cases b.failures.get? key with
      | none => rfl
      | some v =>
        dsimp only
        by_cases hpassed : v.since + b.window < now
        · rw [if_pos (hasPassed_eq_true_iff.mpr hpassed), if_pos hpassed]
        · rw [if_neg (fun hp => hpassed (hasPassed_eq_true_iff.mp hp)), if_neg hpassed]
    · rw [hnone]
      dsimp only
      rw [if_pos hpassed]
  exact congrArg (fun v : FailureWindow => (decide (b.maxRetries < v.count),
    { b with failures := b.failures.insert key v })) hcount

theorem Shows.shows_fail (h : b.Shows now key w) :
    (b.fail now key).2.Shows now key (some (FailureWindow.next b.window now w)) := by
  rw [h.fail]
  exact Or.inl ((SortedMap.get?_insert ..).trans (if_pos rfl))

theorem Shows.fail_of_ne (h : b.Shows now key w) (hne : key' ≠ key) :
    (b.fail now key').2.Shows now key w := by
  have hget : (b.fail now key').2.failures.get? key = b.failures.get? key :=
    (SortedMap.get?_insert ..).trans (if_neg hne)
  unfold Shows
  rw [hget]
  exact h

theorem Shows.isExhausted_iff (h : b.Shows now key w) : b.isExhausted now key = true ↔
    ∃ v, w = some v ∧ now ≤ v.since + b.window ∧ b.maxRetries < v.count := by
  have hrunning : ∀ v : FailureWindow, (!b.hasPassed now v && b.maxRetries < v.count) = true ↔
      now ≤ v.since + b.window ∧ b.maxRetries < v.count := by
    intro v
    rw [Bool.and_eq_true, Bool.not_eq_true', Bool.eq_false_iff, ne_eq, hasPassed_eq_true_iff,
      Nat.not_lt, decide_eq_true_iff]
  unfold isExhausted
  rcases h with rfl | ⟨hnone, v, rfl, hpassed⟩
  · cases b.failures.get? key with
    | none => simp
    | some v => simp [hrunning]
  · rw [hnone]
    simp only [Bool.false_eq_true, Option.some.injEq, false_iff]
    rintro ⟨_, rfl, hnow, _⟩
    omega

end RetryBudget

/-! ## Calls -/

/-- A call of a budget, with its time. -/
inductive BudgetCall where
  | fail (now : Nat) (key : String)
  | exhausted (now : Nat) (key : String)
  | clear (now : Nat) (key : String)
  | prune (now : Nat)
  deriving DecidableEq, Repr

namespace BudgetCall

def now : BudgetCall → Nat
  | fail now _ | exhausted now _ | clear now _ | prune now => now

/-- The key that a call is about; pruning is about none. -/
def key? : BudgetCall → Option String
  | fail _ key | exhausted _ key | clear _ key => some key
  | prune _ => none

/-- The times of the failures in the window of a key, from its start on, behind one more call for
this key. A failure starts a window if there is none, or if the window has passed. -/
def track (span : Nat) (times : List Nat) : BudgetCall → List Nat
  | fail now _ =>
    match times with
    | [] => [now]
    | start :: rest => if start + span < now then [now] else start :: (rest ++ [now])
  | clear _ _ => []
  | exhausted _ _ | prune _ => times

/-- The times of the failures in the window of a key, by the calls for this key. -/
def failureTimes (span : Nat) (key : String) (past : List BudgetCall) : List Nat :=
  (past.filter (fun c => c.key? = some key)).foldl (track span) []

/-- Whether a window with such failures is running and has too many of them. -/
def isOverrun (maxRetries span now : Nat) : List Nat → Bool
  | [] => false
  | start :: rest => now ≤ start + span && maxRetries < rest.length + 1

/-- The answer to a call behind other calls. -/
def expected (maxRetries span : Nat) (past : List BudgetCall) : BudgetCall → Option Bool
  | fail now key => some (maxRetries < (failureTimes span key (past ++ [fail now key])).length)
  | exhausted now key => some (isOverrun maxRetries span now (failureTimes span key past))
  | clear _ _ | prune _ => none

/-- The answers to calls in a row, behind other calls. -/
def reference (maxRetries span : Nat) : (past calls : List BudgetCall) → List Bool
  | _, [] => []
  | past, c :: rest =>
    (expected maxRetries span past c).toList ++ reference maxRetries span (past ++ [c]) rest

/-- The window that a count and a start stand for. -/
def windowOf : List Nat → Option FailureWindow
  | [] => none
  | start :: rest => some ⟨rest.length + 1, start⟩

variable {maxRetries span now : Nat} {key : String} {past : List BudgetCall} {c : BudgetCall}

theorem failureTimes_concat_of_ne (h : c.key? ≠ some key) :
    failureTimes span key (past ++ [c]) = failureTimes span key past := by
  unfold failureTimes
  rw [List.filter_append, List.filter_singleton, decide_eq_false h]
  simp

theorem failureTimes_concat (h : c.key? = some key) :
    failureTimes span key (past ++ [c]) = track span (failureTimes span key past) c := by
  unfold failureTimes
  rw [List.filter_append, List.filter_singleton, decide_eq_true h, List.foldl_append]
  rfl

theorem windowOf_track_fail (times : List Nat) :
    windowOf (track span times (fail now key)) =
      some (FailureWindow.next span now (windowOf times)) := by
  cases times with
  | nil => rfl
  | cons start rest =>
    by_cases h : start + span < now <;> simp [track, windowOf, FailureWindow.next, h]

theorem length_eq_of_windowOf {times : List Nat} {w : FailureWindow}
    (h : windowOf times = some w) : times.length = w.count := by
  cases times with
  | nil => cases h
  | cons start rest =>
    cases h
    rfl

theorem isOverrun_eq_true_iff {times : List Nat} : isOverrun maxRetries span now times = true ↔
    ∃ w, windowOf times = some w ∧ now ≤ w.since + span ∧ maxRetries < w.count := by
  cases times <;> simp [isOverrun, windowOf]

end BudgetCall

namespace RetryBudget

open BudgetCall (expected reference failureTimes windowOf)

/-- The answer of a budget to a call, and the budget behind it. -/
def respond (b : RetryBudget) : BudgetCall → Option Bool × RetryBudget
  | .fail now key => (some (b.fail now key).1, (b.fail now key).2)
  | .exhausted now key => (some (b.isExhausted now key), b)
  | .clear _ key => (none, b.clear key)
  | .prune now => (none, b.prune now)

/-- The answers of a budget to calls in a row. -/
def answers : RetryBudget → List BudgetCall → List Bool
  | _, [] => []
  | b, c :: rest => (b.respond c).1.toList ++ (b.respond c).2.answers rest

/-- A budget shows the windows of all keys behind some calls. -/
def Follows (b : RetryBudget) (now : Nat) (past : List BudgetCall) : Prop :=
  ∀ key, b.Shows now key (windowOf (failureTimes b.window key past))

variable {b : RetryBudget} {now maxRetries span : Nat} {past calls : List BudgetCall}
  {c : BudgetCall}

theorem limits_respond (b : RetryBudget) (c : BudgetCall) :
    (b.respond c).2.maxRetries = b.maxRetries ∧ (b.respond c).2.window = b.window := by
  cases c <;> exact ⟨rfl, rfl⟩

theorem follows_fresh (maxRetries span now : Nat) : (fresh maxRetries span).Follows now [] :=
  fun _ => Or.inl rfl

theorem Follows.later {now' : Nat} (h : b.Follows now past) (hle : now ≤ now') :
    b.Follows now' past :=
  fun key => (h key).later hle

/-- A call is answered as expected. -/
theorem Follows.respond_fst (h : b.Follows c.now past) :
    (b.respond c).1 = expected b.maxRetries b.window past c := by
  cases c with
  | fail now key =>
    have hshows : b.Shows now key (windowOf (failureTimes b.window key past)) := h key
    have htimes : windowOf (failureTimes b.window key (past ++ [.fail now key])) =
        some (FailureWindow.next b.window now (windowOf (failureTimes b.window key past))) := by
      rw [BudgetCall.failureTimes_concat rfl, BudgetCall.windowOf_track_fail]
    show some (b.fail now key).1 = some _
    rw [hshows.fail, BudgetCall.length_eq_of_windowOf htimes]
  | exhausted now key =>
    have hshows : b.Shows now key (windowOf (failureTimes b.window key past)) := h key
    show some (b.isExhausted now key) = some _
    rw [Option.some.injEq, Bool.eq_iff_iff, hshows.isExhausted_iff,
      BudgetCall.isOverrun_eq_true_iff]
  | clear now key => rfl
  | prune now => rfl

/-- A call changes what is recorded of a key as it changes the window of this key. -/
theorem Follows.respond_snd (h : b.Follows c.now past) :
    (b.respond c).2.Follows c.now (past ++ [c]) := by
  intro key
  have hshows : b.Shows c.now key (windowOf (failureTimes b.window key past)) := h key
  rw [(limits_respond b c).2]
  by_cases hkey : c.key? = some key
  · rw [BudgetCall.failureTimes_concat hkey]
    cases c with
    | fail now key' =>
      cases hkey
      rw [BudgetCall.windowOf_track_fail]
      exact hshows.shows_fail
    | exhausted now key' => exact hshows
    | clear now key' =>
      cases hkey
      exact shows_clear b now key
    | prune now => cases hkey
  · rw [BudgetCall.failureTimes_concat_of_ne hkey]
    cases c with
    | fail now key' => exact hshows.fail_of_ne (fun he => hkey (congrArg some he))
    | exhausted now key' => exact hshows
    | clear now key' => exact hshows.clear_of_ne (fun he => hkey (congrArg some he))
    | prune now => exact hshows.prune

theorem Follows.answers (h : b.Follows now past) (hnow : ∀ c ∈ calls, now ≤ c.now)
    (hsorted : calls.Pairwise (fun c c' => c.now ≤ c'.now)) :
    b.answers calls = reference b.maxRetries b.window past calls := by
  induction calls generalizing b now past with
  | nil => rfl
  | cons c rest ih =>
    obtain ⟨hlater, hrest⟩ := List.pairwise_cons.mp hsorted
    have hc : b.Follows c.now past := h.later (hnow c (List.mem_cons_self ..))
    obtain ⟨hmax, hwindow⟩ := limits_respond b c
    have hanswers := ih hc.respond_snd hlater hrest
    rw [hmax, hwindow] at hanswers
    simp only [RetryBudget.answers, reference, hc.respond_fst, hanswers]

end RetryBudget

/-! ## Pruning -/

namespace BudgetCall

def isPrune : BudgetCall → Bool
  | prune _ => true
  | _ => false

theorem filter_filter_isPrune (key : String) (past : List BudgetCall) :
    (past.filter (fun c => !c.isPrune)).filter (fun c => c.key? = some key) =
      past.filter (fun c => c.key? = some key) := by
  rw [List.filter_filter]
  refine List.filter_congr (fun c _ => ?_)
  cases c <;> simp [isPrune, key?]

theorem failureTimes_filter (span : Nat) (key : String) (past : List BudgetCall) :
    failureTimes span key (past.filter (fun c => !c.isPrune)) = failureTimes span key past := by
  unfold failureTimes
  rw [filter_filter_isPrune]

theorem expected_filter (maxRetries span : Nat) (past : List BudgetCall) (c : BudgetCall) :
    expected maxRetries span (past.filter (fun c => !c.isPrune)) c =
      expected maxRetries span past c := by
  cases c with
  | fail now key =>
    have hkey : (fail now key).key? = some key := rfl
    simp only [expected, failureTimes_concat hkey, failureTimes_filter]
  | exhausted now key => simp only [expected, failureTimes_filter]
  | clear now key => rfl
  | prune now => rfl

/-- The answers that are expected do not depend on pruning. -/
theorem reference_filter (maxRetries span : Nat) (past calls : List BudgetCall) :
    reference maxRetries span (past.filter (fun c => !c.isPrune))
        (calls.filter (fun c => !c.isPrune)) = reference maxRetries span past calls := by
  induction calls generalizing past with
  | nil => rfl
  | cons c rest ih =>
    have hlater := ih (past ++ [c])
    rw [List.filter_append] at hlater
    cases hc : c.isPrune with
    | true =>
      obtain ⟨now, rfl⟩ : ∃ now, c = prune now := by cases c <;> simp_all [isPrune]
      simpa [reference, expected, isPrune] using hlater
    | false =>
      rw [List.filter_cons_of_pos (by simp [hc])]
      rw [List.filter_cons_of_pos (by simp [hc]), List.filter_nil] at hlater
      simp only [reference, expected_filter, hlater]

end BudgetCall

namespace RetryBudget

open BudgetCall (reference)

/-- At times that never go back, the answers of a new budget are those that the windows of the keys
give, each by the earlier calls for its key alone. Calls that prune can be put in or left out
anywhere. -/
theorem answers_eq_reference (maxRetries span : Nat) {calls : List BudgetCall}
    (hsorted : calls.Pairwise (fun c c' => c.now ≤ c'.now)) :
    (fresh maxRetries span).answers calls = reference maxRetries span [] calls ∧
      ∀ calls' : List BudgetCall, calls'.Pairwise (fun c c' => c.now ≤ c'.now) →
        calls'.filter (fun c => !c.isPrune) = calls.filter (fun c => !c.isPrune) →
        (fresh maxRetries span).answers calls' = (fresh maxRetries span).answers calls := by
  have hreference : ∀ calls : List BudgetCall, calls.Pairwise (fun c c' => c.now ≤ c'.now) →
      (fresh maxRetries span).answers calls = reference maxRetries span [] calls :=
    fun _ h => (follows_fresh maxRetries span 0).answers (fun _ _ => Nat.zero_le _) h
  refine ⟨hreference calls hsorted, fun calls' hsorted' hsame => ?_⟩
  calc (fresh maxRetries span).answers calls'
      = reference maxRetries span [] calls' := hreference calls' hsorted'
    _ = reference maxRetries span [] (calls'.filter (fun c => !c.isPrune)) :=
        (BudgetCall.reference_filter maxRetries span [] calls').symm
    _ = reference maxRetries span [] (calls.filter (fun c => !c.isPrune)) := by rw [hsame]
    _ = reference maxRetries span [] calls := BudgetCall.reference_filter maxRetries span [] calls
    _ = (fresh maxRetries span).answers calls := (hreference calls hsorted).symm

/-- A camera fails twice within its window, and once more behind it. -/
def stalls : List BudgetCall :=
  [.fail 0 "cam", .fail 20 "cam", .exhausted 20 "cam", .fail 20 "net", .prune 21,
    .exhausted 21 "cam", .fail 21 "cam"]

/-- The second failure of the camera is one too many, as long as its window is running. -/
theorem answers_eq_reference_stalls :
    stalls.Pairwise (fun c c' => c.now ≤ c'.now) ∧
      (fresh 1 20).answers stalls = [false, true, true, false, false, false] ∧
      (fresh 1 20).answers (stalls.filter (fun c => !c.isPrune)) =
        [false, true, true, false, false, false] := by
  have hsorted : stalls.Pairwise (fun c c' => c.now ≤ c'.now) := by decide
  obtain ⟨hreference, hpruning⟩ := answers_eq_reference 1 20 hsorted
  have hanswers : (fresh 1 20).answers stalls = [false, true, true, false, false, false] :=
    hreference.trans (by decide +kernel)
  exact ⟨hsorted, hanswers, (hpruning _ (by decide) (by decide)).trans hanswers⟩

end RetryBudget

end BoardFarm
