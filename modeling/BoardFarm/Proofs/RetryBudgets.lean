import BoardFarm.Proofs.FailureWindows
import BoardFarm.Proofs.PassCommands
import Mathlib.Data.List.Induction
import Mathlib.Data.List.MinMax

/-!
# Retry budgets

Whether a pass skips a planned command is decided by the failures that its budget has counted for
the written path. It is the same decision as the one by the commands that have been tried for that
path, as long as no path that is written alike has been commanded: which is certain for a path
without slashes in its parts, but not for others.

A command may fail long after its retries were looked at, so a trial has two moments. A window
starts when a failure is noted, and it is asked about when the next command is looked at.

* `Trial.window`, `Trial.Spent`: what the outcomes of commands amount to.
* `Trial.ofPass`: what a pass does about each planned command, and when.
* `RetryBudget.Reflects`: a budget counts the commands that have been tried.
* `ResourcePath.Plain.eq_of_text_eq`: no other path is written like one whose parts have no
  slashes.
* `Station.Itinerary.retry_budget`: what a path's own commands decide.
* `Station.shared_budget`: a path that is skipped for the failures of another one.
-/

namespace BoardFarm

/-! ## Trials -/

/-- A planned command that a pass has come to: when the retries of its path were looked at and, if
it was not skipped, its outcome and when that was noted. -/
structure Trial where
  path : ResourcePath
  looked : Nat
  result : Option (Outcome × Nat)
  deriving DecidableEq, Repr

namespace Trial

/-- The moments at which the clock was read. -/
def readings (t : Trial) : List Nat := t.looked :: (t.result.map Prod.snd).toList

/-- The command that was tried, if it was. -/
def tried (t : Trial) : Option (ResourcePath × Outcome) := t.result.map (fun r => (t.path, r.1))

/-- The command has failed, and this was noted at a moment. -/
def FailedAt (t : Trial) (moment : Nat) : Prop := ∃ cause, t.result = some (.failed cause, moment)

/-- A success ends the window. A failure counts in the window that is running when it is noted, or
opens a new one. -/
def count (span : Nat) (w : Option FailureWindow) (t : Trial) : Option FailureWindow :=
  match t.result with
  | none => w
  | some (.done, _) => none
  | some (.failed _, moment) => some (FailureWindow.next span moment w)

/-- The failures since the last success, in the last window of some span. -/
def window (span : Nat) (l : List Trial) : Option FailureWindow := l.foldl (count span) none

/-- There have been more failures in a window that is still running than there may be. -/
def Spent (maxRetries span now : Nat) (l : List Trial) : Prop :=
  ∃ w, window span l = some w ∧ now ≤ w.since + span ∧ maxRetries < w.count

/-- A trial is skipped just if the trials before it had spent the retries. -/
def Rationed (maxRetries span : Nat) (l : List Trial) : Prop :=
  ∀ before t after, l = before ++ t :: after →
    (t.result = none ↔ Spent maxRetries span t.looked
      (before.filter (fun t' => t'.path.text = t.path.text)))

variable {maxRetries span now first : Nat} {l : List Trial} {t : Trial} {path : ResourcePath}

theorem window_concat : window span (l ++ [t]) = count span (window span l) t := by
  unfold window
  rw [List.foldl_append]
  rfl

theorem count_skipped (w : Option FailureWindow) (h : t.result = none) : count span w t = w := by
  unfold count
  rw [h]

theorem FailedAt.count_eq (h : t.FailedAt now) (w : Option FailureWindow) :
    count span w t = some (FailureWindow.next span now w) := by
  obtain ⟨cause, hresult⟩ := h
  unfold count
  rw [hresult]

/-- A window starts with a failure. -/
theorem exists_failedAt_of_window {w : FailureWindow} (h : window span l = some w) :
    ∃ t ∈ l, t.FailedAt w.since := by
  induction l using List.reverseRecOn generalizing w with
  | nil => cases h
  | append_singleton l t ih =>
    rw [window_concat] at h
    have hpast : ∀ {v : FailureWindow}, window span l = some v →
        ∃ t' ∈ l ++ [t], t'.FailedAt v.since := by
      intro v hv
      obtain ⟨t', ht', hfailed⟩ := ih hv
      exact ⟨t', List.mem_append_left _ ht', hfailed⟩
    unfold count at h
    split at h
    · exact hpast h
    · cases h
    · rename_i cause moment hresult
      have hnew : ∃ t' ∈ l ++ [t], t'.FailedAt moment := ⟨t, by simp, cause, hresult⟩
      cases h
      unfold FailureWindow.next
      split
      · exact hnew
      · rename_i v hv
        split
        · exact hnew
        · obtain ⟨t', ht', hfailed⟩ := hpast hv
          exact ⟨t', ht', hfailed⟩

theorem Spent.exists_failedAt (h : Spent maxRetries span now l) :
    ∃ t ∈ l, ∃ moment, t.FailedAt moment ∧ now ≤ moment + span := by
  obtain ⟨w, hw, hnow, _⟩ := h
  obtain ⟨t, ht, hfailed⟩ := exists_failedAt_of_window hw
  exact ⟨t, ht, w.since, hfailed, hnow⟩

/-! ### Trials of one path -/

/-- Trials that were skipped do not count. -/
theorem window_filter_tried (l : List Trial) :
    window span (l.filter (fun t => t.result.isSome)) = window span l := by
  induction l using List.reverseRecOn with
  | nil => rfl
  | append_singleton l t ih =>
    rw [List.filter_append, window_concat]
    cases hresult : t.result with
    | none =>
      rw [List.filter_cons_of_neg (by simp [hresult]), List.filter_nil, List.append_nil, ih,
        count_skipped _ hresult]
    | some r =>
      rw [List.filter_cons_of_pos (by simp [hresult]), List.filter_nil, window_concat, ih]

/-- As long as no path that is written alike is commanded, it is the same to count the trials by
path or by text. -/
theorem window_text_eq
    (hown : ∀ t ∈ l, t.result ≠ none → t.path.text = path.text → t.path = path) :
    window span (l.filter (fun t => t.path.text = path.text)) =
      window span (l.filter (fun t => t.path = path)) := by
  rw [← window_filter_tried, ← window_filter_tried (l.filter (fun t => t.path = path)),
    List.filter_filter, List.filter_filter]
  congr 1
  apply List.filter_congr
  intro t ht
  cases hresult : t.result with
  | none => rfl
  | some r =>
    rw [Option.isSome_some, Bool.true_and, Bool.true_and, decide_eq_decide]
    exact ⟨hown t ht (by simp [hresult]), congrArg ResourcePath.text⟩

theorem Rationed.concat (h : Rationed maxRetries span l)
    (hlast : t.result = none ↔
      Spent maxRetries span t.looked (l.filter (fun t' => t'.path.text = t.path.text))) :
    Rationed maxRetries span (l ++ [t]) := by
  intro before t' after he
  rcases List.eq_nil_or_concat after with rfl | ⟨init, last, rfl⟩
  · obtain ⟨rfl, ht⟩ := List.append_inj' he rfl
    cases ht
    exact hlast
  · rw [List.concat_eq_append, ← List.cons_append, ← List.append_assoc] at he
    exact h before t' init (List.append_inj' he rfl).1

/-- As long as no path that is written alike is commanded, the trials of a path are rationed by
themselves. -/
theorem Rationed.own (h : Rationed maxRetries span l)
    (hown : ∀ t ∈ l, t.result ≠ none → t.path.text = path.text → t.path = path)
    {before after : List Trial} (hl : l.filter (fun t => t.path = path) = before ++ t :: after) :
    t.result = none ↔ Spent maxRetries span t.looked before := by
  obtain ⟨l₁, l₂, rfl, hbefore, hrest⟩ := List.filter_eq_append_iff.mp hl
  obtain ⟨m, l₃, rfl, hother, ht, _⟩ := List.filter_eq_cons_iff.mp hrest
  have hpath : t.path = path := of_decide_eq_true ht
  have hsame : (l₁ ++ m).filter (fun t' => t'.path = path) = before := by
    rw [List.filter_append, hbefore, List.filter_eq_nil_iff.mpr hother, List.append_nil]
  have hwindow : window span ((l₁ ++ m).filter (fun t' => t'.path.text = t.path.text)) =
      window span before := by
    rw [hpath, window_text_eq, hsame]
    intro t' ht'
    refine hown t' ?_
    rw [← List.append_assoc]
    exact List.mem_append_left _ ht'
  rw [h (l₁ ++ m) t l₃ (by rw [List.append_assoc])]
  unfold Spent
  rw [hwindow]

/-- The failures within the window that a failure opens are counted, and there are no more of them
than retries. -/
theorem window_failures {before mid after : List Trial}
    (halone : ∀ past f rest, l = past ++ f :: rest → f.result ≠ none →
      ¬ Spent maxRetries span f.looked past)
    (hlooked : ∀ f ∈ l, ∀ moment, f.FailedAt moment → f.looked ≤ moment)
    (hl : l = before ++ t :: (mid ++ after)) (hfirst : t.FailedAt first)
    (hopens : ∀ w, window span before = some w → w.since + span < first)
    (hmid : ∀ f ∈ mid, f.result = none ∨ ∃ moment, f.FailedAt moment ∧ moment ≤ first + span) :
    window span (before ++ t :: mid) =
        some ⟨(mid.filter (fun f => f.result.isSome)).length + 1, first⟩ ∧
      (mid.filter (fun f => f.result.isSome)).length ≤ maxRetries := by
  induction mid using List.reverseRecOn generalizing after with
  | nil =>
    refine ⟨?_, Nat.zero_le _⟩
    rw [window_concat, hfirst.count_eq]
    unfold FailureWindow.next
    split
    · rfl
    · rename_i w hw
      rw [if_pos (hopens w hw)]
      rfl
  | append_singleton mid f ih =>
    rw [List.append_assoc, List.singleton_append] at hl
    obtain ⟨hpast, hcount⟩ := ih hl (fun f' hf' => hmid f' (List.mem_append_left _ hf'))
    rw [← List.cons_append, ← List.append_assoc, window_concat, hpast, List.filter_append]
    rcases hmid f (by simp) with hskipped | ⟨moment, hfailed, hrunning⟩
    · rw [count_skipped _ hskipped, List.filter_cons_of_neg (by simp [hskipped]), List.filter_nil,
        List.append_nil]
      exact ⟨rfl, hcount⟩
    · obtain ⟨cause, hresult⟩ := hfailed
      -- the last command was tried within the window, so a retry was left for it
      have hleft : (mid.filter (fun f => f.result.isSome)).length + 1 ≤ maxRetries := by
        by_contra hmany
        refine halone (before ++ t :: mid) f after (by simp [hl]) (by simp [hresult]) ?_
        have hle := hlooked f (by simp [hl]) moment ⟨cause, hresult⟩
        exact ⟨_, hpast, Nat.le_trans hle hrunning, Nat.lt_of_not_le hmany⟩
      rw [List.filter_cons_of_pos (by simp [hresult]), List.filter_nil, List.length_append,
        FailedAt.count_eq ⟨cause, hresult⟩]
      refine ⟨?_, hleft⟩
      unfold FailureWindow.next
      dsimp only
      rw [if_neg (Nat.not_lt.mpr hrunning)]
      rfl

/-! ### Trials of a pass -/

/-- What a pass does about its plan, by the readings of the clock. The commands that it has tried
are among the planned ones, in the same order. -/
def ofPass : Clock → List (ResourcePath × Option String) → List Attempt → List Trial
  | _, [], _ => []
  | c, e :: rest, [] => ⟨e.1, c.next.now, none⟩ :: ofPass c.next rest []
  | c, e :: rest, a :: l =>
    if a.handle.path = e.1 then
      ⟨e.1, c.next.now, some (a.outcome, c.next.next.now)⟩ :: ofPass c.next.next rest l
    else ⟨e.1, c.next.now, none⟩ :: ofPass c.next rest (a :: l)

variable {c : Clock} {plan : List (ResourcePath × Option String)} {attempts : List Attempt}

theorem ofPass_skipped (c : Clock) (e : ResourcePath × Option String)
    (h : e.1 ∉ attempts.map (fun a => a.handle.path)) :
    ofPass c (e :: plan) attempts = ⟨e.1, c.next.now, none⟩ :: ofPass c.next plan attempts := by
  cases attempts with
  | nil => rfl
  | cons a l =>
    have hne : a.handle.path ≠ e.1 := fun he => h (List.mem_map.mpr ⟨a, List.mem_cons_self, he⟩)
    exact if_neg hne

theorem ofPass_tried (c : Clock) (a : Attempt) (place : Option String) :
    ofPass c ((a.handle.path, place) :: plan) (a :: attempts) =
      ⟨a.handle.path, c.next.now, some (a.outcome, c.next.next.now)⟩ ::
        ofPass c.next.next plan attempts :=
  if_pos rfl

/-- A pass comes to each of its planned commands in turn. -/
theorem map_path_ofPass (c : Clock) (plan : List (ResourcePath × Option String))
    (attempts : List Attempt) :
    (ofPass c plan attempts).map Trial.path = plan.map Prod.fst := by
  induction plan generalizing c attempts with
  | nil => rfl
  | cons e rest ih =>
    cases attempts with
    | nil => exact congrArg (List.cons e.1) (ih c.next [])
    | cons a l =>
      unfold ofPass
      split
      · exact congrArg (List.cons e.1) (ih c.next.next l)
      · exact congrArg (List.cons e.1) (ih c.next (a :: l))

end Trial

namespace RetryBudget

/-- A budget counts for each key what the trials of that key amount to, but for windows that have
passed. -/
def Reflects (b : RetryBudget) (now : Nat) (l : List Trial) : Prop :=
  ∀ key, b.failures.get? key = Trial.window b.window (l.filter (fun t => t.path.text = key)) ∨
    b.failures.get? key = none ∧ ∃ w,
      Trial.window b.window (l.filter (fun t => t.path.text = key)) = some w ∧
        w.since + b.window < now

variable {b b' : RetryBudget} {now now' : Nat} {l : List Trial}

theorem maxRetries_note (b : RetryBudget) (now : Nat) (key : String) (o : Outcome) :
    (b.note now key o).maxRetries = b.maxRetries := by
  cases o <;> rfl

theorem window_note (b : RetryBudget) (now : Nat) (key : String) (o : Outcome) :
    (b.note now key o).window = b.window := by
  cases o <;> rfl

/-- A budget that reflects the trials shows the window of each key. -/
theorem reflects_iff : b.Reflects now l ↔
    ∀ key, b.Shows now key (Trial.window b.window (l.filter (fun t => t.path.text = key))) :=
  Iff.rfl

theorem Reflects.later (h : b.Reflects now l) (hle : now ≤ now') : b.Reflects now' l :=
  reflects_iff.mpr (fun key => (reflects_iff.mp h key).later hle)

theorem Reflects.prune (h : b.Reflects now l) : (b.prune now).Reflects now l :=
  reflects_iff.mpr (fun key => (reflects_iff.mp h key).prune)

theorem Reflects.isExhausted_iff (h : b.Reflects now l) (key : String) :
    b.isExhausted now key = true ↔
      Trial.Spent b.maxRetries b.window now (l.filter (fun t => t.path.text = key)) :=
  (reflects_iff.mp h key).isExhausted_iff

/-- A command that is skipped leaves nothing to be counted. -/
theorem Reflects.skip (h : b.Reflects now l) (path : ResourcePath) (looked : Nat) :
    b.Reflects now (l ++ [⟨path, looked, none⟩]) := by
  refine reflects_iff.mpr (fun key => ?_)
  have hshows := reflects_iff.mp h key
  rw [List.filter_append]
  by_cases hkey : path.text = key
  · rw [List.filter_singleton, decide_eq_true hkey, cond_true, Trial.window_concat,
      Trial.count_skipped _ rfl]
    exact hshows
  · rw [List.filter_singleton, decide_eq_false hkey, cond_false, List.append_nil]
    exact hshows

theorem Reflects.note (h : b.Reflects now l) (path : ResourcePath) (looked : Nat) (o : Outcome) :
    (b.note now path.text o).Reflects now (l ++ [⟨path, looked, some (o, now)⟩]) := by
  refine reflects_iff.mpr (fun key => ?_)
  have hshows := reflects_iff.mp h key
  rw [window_note, List.filter_append]
  by_cases hkey : path.text = key
  · subst hkey
    rw [List.filter_singleton, decide_eq_true rfl, cond_true, Trial.window_concat]
    cases o with
    | done => exact shows_clear b now path.text
    | failed cause =>
      rw [Trial.FailedAt.count_eq ⟨cause, rfl⟩]
      exact hshows.shows_fail
  · rw [List.filter_singleton, decide_eq_false hkey, cond_false, List.append_nil]
    cases o with
    | done => exact hshows.clear_of_ne hkey
    | failed cause => exact hshows.fail_of_ne hkey

variable {published : SortedMap ResourcePath Handle} {c c' : Clock}
  {plan : List (ResourcePath × Option String)} {attempts : List Attempt}

/-- A path that is not planned is not tried. -/
theorem Rations.not_tried (hr : Rations published c b plan attempts c' b')
    {path : ResourcePath} (hnew : path ∉ plan.map Prod.fst) :
    path ∉ attempts.map (fun a => a.handle.path) := by
  have hsub := (hr.sublist.map Prod.fst).subset
  rw [List.map_map] at hsub
  exact fun hmem => hnew (hsub hmem)

/-- What a pass has not skipped is what it has tried. -/
theorem Rations.filterMap_tried (hr : Rations published c b plan attempts c' b')
    (hnodup : (plan.map Prod.fst).Nodup) :
    (Trial.ofPass c plan attempts).filterMap Trial.tried =
      attempts.map (fun a => (a.handle.path, a.outcome)) := by
  induction hr with
  | nil => rfl
  | skip _ hrest ih =>
    rw [List.map_cons, List.nodup_cons] at hnodup
    rw [Trial.ofPass_skipped _ _ (hrest.not_tried hnodup.1)]
    exact ih hnodup.2
  | tried _ _ _ ih =>
    rw [List.map_cons, List.nodup_cons] at hnodup
    rw [Trial.ofPass_tried]
    exact congrArg (List.cons _) (ih hnodup.2)

/-- A pass counts what it tries, and skips just those commands whose retries are spent when they
are looked at. -/
theorem Rations.reflects (hr : Rations published c b plan attempts c' b')
    (hnodup : (plan.map Prod.fst).Nodup)
    (hclock : (c.now :: (Trial.ofPass c plan attempts).flatMap Trial.readings).Pairwise (· ≤ ·))
    (h : b.Reflects c.now l) (hl : Trial.Rationed b.maxRetries b.window l) :
    (∀ later, (∀ r ∈ c.now :: (Trial.ofPass c plan attempts).flatMap Trial.readings, r ≤ later) →
      b'.Reflects later (l ++ Trial.ofPass c plan attempts)) ∧
      Trial.Rationed b.maxRetries b.window (l ++ Trial.ofPass c plan attempts) ∧
      b'.maxRetries = b.maxRetries ∧ b'.window = b.window := by
  induction hr generalizing l with
  | nil c b =>
    have hnone : Trial.ofPass c [] [] = [] := rfl
    rw [hnone, List.append_nil]
    exact ⟨fun later hle => h.later (hle _ List.mem_cons_self), hl, rfl, rfl⟩
  | @skip c c' b b' path place rest attempts hspent hrest ih =>
    rw [List.map_cons, List.nodup_cons] at hnodup
    rw [Trial.ofPass_skipped _ _ (hrest.not_tried hnodup.1)] at hclock ⊢
    obtain ⟨hfirst, hclock'⟩ := List.pairwise_cons.mp hclock
    have hlooked := h.later (hfirst c.next.now List.mem_cons_self)
    have hlast : Trial.Rationed b.maxRetries b.window (l ++ [⟨path, c.next.now, none⟩]) :=
      hl.concat (iff_of_true rfl ((hlooked.isExhausted_iff _).mp hspent))
    obtain ⟨hlater, hall, hmax, hwindow⟩ := ih hnodup.2 hclock' (hlooked.skip path _) hlast
    rw [List.append_assoc] at hall hlater
    exact ⟨fun later hle => hlater later (fun r hr => hle r (List.mem_cons_of_mem _ hr)), hall,
      hmax, hwindow⟩
  | @tried c c' b b' a rest attempts hx hleft hrest ih =>
    rw [List.map_cons, List.nodup_cons] at hnodup
    rw [Trial.ofPass_tried] at hclock ⊢
    obtain ⟨hfirst, hclock'⟩ := List.pairwise_cons.mp hclock
    obtain ⟨hsecond, hclock''⟩ := List.pairwise_cons.mp hclock'
    have hlooked := h.later (hfirst c.next.now List.mem_cons_self)
    have hnoted := hlooked.later (hsecond c.next.next.now List.mem_cons_self)
    have hnot : ¬ Trial.Spent b.maxRetries b.window c.next.now
        (l.filter (fun t => t.path.text = a.handle.path.text)) := by
      rw [← hlooked.isExhausted_iff, hleft]
      exact Bool.false_ne_true
    have hlast : Trial.Rationed b.maxRetries b.window
        (l ++ [⟨a.handle.path, c.next.now, some (a.outcome, c.next.next.now)⟩]) :=
      hl.concat (iff_of_false (fun he => by cases he) hnot)
    rw [← maxRetries_note b c.next.next.now a.handle.path.text a.outcome,
      ← window_note b c.next.next.now a.handle.path.text a.outcome] at hlast
    obtain ⟨hlater, hall, hmax, hwindow⟩ :=
      ih hnodup.2 hclock'' (hnoted.note a.handle.path _ a.outcome) hlast
    rw [maxRetries_note] at hmax hall
    rw [window_note] at hwindow hall
    rw [List.append_assoc] at hall hlater
    refine ⟨fun later hle => hlater later (fun r hr => hle r ?_), hall, hmax, hwindow⟩
    exact List.mem_cons_of_mem _ (List.mem_cons_of_mem _ hr)

/-- The budget of a hub, with all trials so far. -/
structure Tallies (b : RetryBudget) (now : Nat) (l : List Trial) : Prop where
  maxRetries : b.maxRetries = standard.maxRetries
  window : b.window = standard.window
  reflects : b.Reflects now l
  rationed : Trial.Rationed standard.maxRetries standard.window l

theorem tallies_standard (now : Nat) : standard.Tallies now [] := by
  refine ⟨rfl, rfl, fun key => Or.inl rfl, ?_⟩
  intro before t after he
  exact absurd he (by simp)

theorem Tallies.pass (h : b.Tallies c.now l) (hnodup : (plan.map Prod.fst).Nodup)
    (hr : Rations published c (b.prune c.now) plan attempts c' b')
    (hclock : (c.now :: (Trial.ofPass c plan attempts).flatMap Trial.readings).Pairwise (· ≤ ·))
    (hle : ∀ r ∈ c.now :: (Trial.ofPass c plan attempts).flatMap Trial.readings, r ≤ now) :
    b'.Tallies now (l ++ Trial.ofPass c plan attempts) := by
  have hrationed : Trial.Rationed (b.prune c.now).maxRetries (b.prune c.now).window l := by
    show Trial.Rationed b.maxRetries b.window l
    rw [h.maxRetries, h.window]
    exact h.rationed
  obtain ⟨hlater, hall, hmax, hwindow⟩ := hr.reflects hnodup hclock h.reflects.prune hrationed
  have hmax' : (b.prune c.now).maxRetries = standard.maxRetries := h.maxRetries
  have hwindow' : (b.prune c.now).window = standard.window := h.window
  rw [hmax', hwindow'] at hall
  exact ⟨hmax.trans hmax', hwindow.trans hwindow', hlater now hle, hall⟩

end RetryBudget

/-! ## Written paths -/

/-- No part has a slash. -/
def ResourcePath.Plain (p : ResourcePath) : Prop := ∀ part ∈ p.parts, '/' ∉ part.toList

instance (p : ResourcePath) : Decidable p.Plain :=
  inferInstanceAs (Decidable (∀ part ∈ p.parts, '/' ∉ part.toList))

theorem append_slash_inj {a b rest rest' : List Char} (ha : '/' ∉ a) (hb : '/' ∉ b)
    (h : a ++ '/' :: rest = b ++ '/' :: rest') : a = b ∧ rest = rest' := by
  induction a generalizing b with
  | nil =>
    cases b with
    | nil => exact ⟨rfl, (List.cons.inj h).2⟩
    | cons c b =>
      rw [← (List.cons.inj h).1] at hb
      exact absurd List.mem_cons_self hb
  | cons c a ih =>
    cases b with
    | nil =>
      rw [(List.cons.inj h).1] at ha
      exact absurd List.mem_cons_self ha
    | cons d b =>
      obtain ⟨rfl, htail⟩ := List.cons.inj h
      obtain ⟨rfl, hrest⟩ := ih (fun hm => ha (List.mem_cons_of_mem _ hm))
        (fun hm => hb (List.mem_cons_of_mem _ hm)) htail
      exact ⟨rfl, hrest⟩

/-- No other path is written like one whose parts have no slashes. -/
theorem ResourcePath.Plain.eq_of_text_eq {p q : ResourcePath} (hp : p.Plain) (h : q.text = p.text) :
    q = p := by
  have hlist : q.exporter.toList ++ '/' :: (q.group.toList ++ '/' :: (q.cls.toList ++ '/' ::
      q.name.toList)) = p.exporter.toList ++ '/' :: (p.group.toList ++ '/' :: (p.cls.toList ++
        '/' :: p.name.toList)) := by
    simpa [text, String.toList_append] using congrArg String.toList h
  -- both are written with three slashes, so the parts of the other path have none either
  have hslashes := congrArg (List.count '/') hlist
  simp only [List.count_append, List.count_cons_self] at hslashes
  obtain ⟨he, hg, hc, hn⟩ : '/' ∉ p.exporter.toList ∧ '/' ∉ p.group.toList ∧
      '/' ∉ p.cls.toList ∧ '/' ∉ p.name.toList := by
    simpa [Plain, parts] using hp
  rw [List.count_eq_zero.mpr he, List.count_eq_zero.mpr hg, List.count_eq_zero.mpr hc,
    List.count_eq_zero.mpr hn] at hslashes
  have he' : '/' ∉ q.exporter.toList := List.count_eq_zero.mp (by omega)
  have hg' : '/' ∉ q.group.toList := List.count_eq_zero.mp (by omega)
  have hc' : '/' ∉ q.cls.toList := List.count_eq_zero.mp (by omega)
  obtain ⟨hexporter, hlist⟩ := append_slash_inj he' he hlist
  obtain ⟨hgroup, hlist⟩ := append_slash_inj hg' hg hlist
  obtain ⟨hcls, hname⟩ := append_slash_inj hc' hc hlist
  cases p
  cases q
  rw [mk.injEq]
  exact ⟨String.toList_inj.mp hexporter, String.toList_inj.mp hgroup, String.toList_inj.mp hcls,
    String.toList_inj.mp hname⟩

/-! ## Operations -/

namespace Hub

theorem retries_schedule (hub : Hub) (now : Nat) : (hub.schedule now).retries = hub.retries := by
  unfold Hub.schedule
  refine List.foldlRecOn _ _ (motive := fun hub₁ : Hub => hub₁.retries = hub.retries) rfl ?_
  intro hub₁ h₁ p _
  unfold linkPlace
  split
  · exact h₁
  · exact h₁

variable {o : Occasion} {hub hub' : Hub}

/-- Only passes of reconciliation change the budget. -/
theorem Move.same_retries (hm : Move o hub hub')
    (hop : ∀ readings, o.operation ≠ .synchronize readings) : hub'.retries = hub.retries := by
  have hpass : ∀ mid : Hub, mid.retries = hub.retries →
      (mid.schedule o.now).retries = hub.retries :=
    fun mid hmid => (retries_schedule mid o.now).trans hmid
  cases hm with
  | edit _ _ => rfl
  | retag _ _ _ => exact hpass _ rfl
  | add _ _ => exact hpass _ rfl
  | addDefault => exact hpass _ rfl
  | delete name => exact hpass _ rfl
  | acquire hp =>
    unfold completeAcquisition
    rw [hp]
    exact hpass _ rfl
  | release hp =>
    unfold completeRelease
    rw [hp]
    exact hpass _ rfl
  | attach hp =>
    unfold Hub.attach
    rw [hp]
    rfl
  | replace hr _ =>
    obtain ⟨_, _, _, _, rfl⟩ := replaceHeld_eq_some hr
    rfl
  | republish handle =>
    obtain ⟨clients, he⟩ := publishHolders_eq hub handle
    rw [he]
  | reserve => exact hpass _ rfl
  | cancel => exact hpass _ rfl
  | poll _ _ => rfl
  | schedule => exact hpass hub rfl
  | subscribe id enable => rfl
  | retries b hsync => exact absurd hsync (hop _)

theorem Passage.same_retries {tells : Bool} {l : List Attempt} (hp : Passage o tells hub l hub')
    (hop : ∀ readings, o.operation ≠ .synchronize readings) : hub'.retries = hub.retries := by
  induction hp with
  | refl => rfl
  | exchange _ hx ih => exact hx.quiet.retries.trans ih
  | move _ hm _ ih => exact (hm.same_retries hop).trans ih

end Hub

namespace Station

/-- What a turn does about a plan of reconciliation, if it is a pass. -/
def passTrials (e : Station × Turn) : List Trial :=
  match e.2.operation with
  | some (.synchronize readings) =>
    Trial.ofPass ⟨readings, e.2.now⟩ (Hub.planned e.1.hub.driftPlan) e.2.attempts
  | _ => []

/-- What the passes of reconciliation have done about their plans. -/
def trials (l : List (Station × Turn)) : List Trial := l.flatMap passTrials

/-- The readings of the clock by a turn for its retries, if it is a pass of reconciliation: one when
it begins, and those of the trials. -/
def passReadings (e : Station × Turn) : List Nat :=
  match e.2.operation with
  | some (.synchronize readings) =>
    Clock.now ⟨readings, e.2.now⟩ :: (passTrials e).flatMap Trial.readings
  | _ => []

/-- The readings of the clock by the passes of reconciliation. -/
def retryReadings (l : List (Station × Turn)) : List Nat := l.flatMap passReadings

variable {settings : HubSettings} {directory : Option StateDirectory} {start s t : Station}
  {l : List (Station × Turn)} {turn : Turn}

theorem passTrials_eq {readings : List Nat} (hop : turn.operation = some (.synchronize readings)) :
    passTrials (s, turn) =
      Trial.ofPass ⟨readings, turn.now⟩ (Hub.planned s.hub.driftPlan) turn.attempts := by
  unfold passTrials
  rw [hop]

theorem passReadings_eq {readings : List Nat}
    (hop : turn.operation = some (.synchronize readings)) :
    passReadings (s, turn) =
      Clock.now ⟨readings, turn.now⟩ :: (passTrials (s, turn)).flatMap Trial.readings := by
  unfold passReadings
  rw [hop]

/-- Other turns than passes of reconciliation try nothing of a plan. -/
theorem passTrials_of_other (hop : ∀ readings, turn.operation ≠ some (.synchronize readings)) :
    passTrials (s, turn) = [] ∧ passReadings (s, turn) = [] := by
  unfold passReadings passTrials
  split
  · rename_i readings he
    exact absurd he (hop readings)
  · exact ⟨rfl, rfl⟩

/-- A pass goes through its plan with the retries that are left. -/
theorem Itinerary.rations (h : Station.start settings directory = .ok start)
    (hi : Itinerary start l s) (hs : Step s turn t) {readings : List Nat}
    (hop : turn.operation = some (.synchronize readings)) :
    ((Hub.planned s.hub.driftPlan).map Prod.fst).Nodup ∧
      ∃ c', (s.hub.retries.prune (Clock.now ⟨readings, turn.now⟩)).Rations s.hub.publishedMap
        ⟨readings, turn.now⟩ (Hub.planned s.hub.driftPlan) turn.attempts c' t.hub.retries := by
  have horderly := hi.course.orderly h
  refine ⟨horderly.nodup_planned, ?_⟩
  cases hs with
  | operate react around now op =>
    cases hop
    exact (Run.synchronize_rations react around ⟨readings, now⟩ horderly rfl).1
  | save now => cases hop
  | saveIfDirty now => cases hop

/-- Every pass comes to each of its planned commands in turn, and what it does not skip it tries. -/
theorem Itinerary.passTrials_spec (h : Station.start settings directory = .ok start)
    (hi : Itinerary start l s) :
    ∀ e ∈ l, ∀ readings, e.2.operation = some (.synchronize readings) →
      (passTrials e).map Trial.path = (Hub.planned e.1.hub.driftPlan).map Prod.fst ∧
        (passTrials e).filterMap Trial.tried =
          e.2.attempts.map (fun a => (a.handle.path, a.outcome)) := by
  induction hi with
  | start => exact fun e he => absurd he List.not_mem_nil
  | @step l s turn t hi hs ih =>
    intro e he readings hop
    rcases List.mem_append.mp he with hold | hnew
    · exact ih e hold readings hop
    · rw [List.mem_singleton.mp hnew] at hop ⊢
      obtain ⟨hnodup, c', hrations⟩ := hi.rations h hs hop
      rw [passTrials_eq hop]
      exact ⟨Trial.map_path_ofPass _ _ _, hrations.filterMap_tried hnodup⟩

theorem Itinerary.tallies (h : Station.start settings directory = .ok start)
    (hi : Itinerary start l s) (hclock : (retryReadings l).Pairwise (· ≤ ·)) {now : Nat}
    (hle : ∀ r ∈ retryReadings l, r ≤ now) : s.hub.retries.Tallies now (trials l) := by
  induction hi generalizing now with
  | start =>
    obtain ⟨places, hhub, _⟩ := start_ok h
    rw [hhub]
    exact RetryBudget.tallies_standard now
  | @step l s turn t hi hs ih =>
    have hreadings : retryReadings (l ++ [(s, turn)]) =
        retryReadings l ++ passReadings (s, turn) := by
      simp [retryReadings]
    have htrials : trials (l ++ [(s, turn)]) = trials l ++ passTrials (s, turn) := by
      simp [trials]
    rw [hreadings] at hclock hle
    rw [htrials]
    by_cases hop : ∃ readings, turn.operation = some (.synchronize readings)
    · obtain ⟨readings, hop⟩ := hop
      obtain ⟨hnodup, c', hrations⟩ := hi.rations h hs hop
      rw [passReadings_eq hop, passTrials_eq hop] at hclock hle
      rw [passTrials_eq hop]
      obtain ⟨hpast, hpass, hacross⟩ := List.pairwise_append.mp hclock
      have htallies := ih hpast (fun r hr => hacross r hr _ List.mem_cons_self)
      exact htallies.pass hnodup hrations hpass (fun r hr => hle r (List.mem_append_right _ hr))
    · have hother : ∀ readings, turn.operation ≠ some (.synchronize readings) :=
        fun readings he => hop ⟨readings, he⟩
      obtain ⟨hnone, hnone'⟩ := passTrials_of_other (s := s) hother
      rw [hnone', List.append_nil] at hclock hle
      have hsame : t.hub.retries = s.hub.retries := by
        obtain ⟨hn, hf⟩ := hi.course.filed h
        rcases hs.passage hn hf with ⟨op, hop', hp⟩ | ⟨_, _, dirty, hd⟩
        · refine hp.same_retries (fun readings he => hother readings (hop'.trans ?_))
          exact congrArg some he
        · rw [hd]
      rw [hnone, List.append_nil, hsame]
      exact ih hclock hle

/-- While the clock of the passes does not go back, a command is looked at before its outcome is
noted. -/
theorem looked_le_of_failedAt (hclock : (retryReadings l).Pairwise (· ≤ ·)) {f : Trial}
    (hf : f ∈ trials l) {moment : Nat} (hfailed : f.FailedAt moment) : f.looked ≤ moment := by
  obtain ⟨e, he, hfe⟩ := List.mem_flatMap.mp hf
  have hpass : (passReadings e).Pairwise (· ≤ ·) := by
    unfold retryReadings at hclock
    exact (List.pairwise_flatMap.mp hclock).1 e he
  obtain ⟨cause, hresult⟩ := hfailed
  have hpair : f.readings.Pairwise (· ≤ ·) := by
    unfold passReadings at hpass
    split at hpass
    · exact (List.pairwise_flatMap.mp (List.pairwise_cons.mp hpass).2).1 f hfe
    · rename_i hother
      rw [(passTrials_of_other (s := e.1) hother).1] at hfe
      cases hfe
  unfold Trial.readings at hpair
  rw [hresult] at hpair
  exact (List.pairwise_cons.mp hpair).1 moment (by simp)

/-- Let the clock of the passes never go back, and let no other path that is written like a path
have been commanded. Then the path's own commands alone decide which of them are skipped.

Every pass comes to each of its planned commands in turn, and what it does not skip it tries. A
command of the path is skipped just if the failures since the last success of the path have spent
the retries of a window that is still running when the command is looked at. So it is not skipped
without a failure that has been noted recently enough for such a window. Within a window that a
failure opens no more commands fail behind it than there are retries. -/
theorem Itinerary.retry_budget (h : Station.start settings directory = .ok start)
    (hi : Itinerary start l s) (hclock : (retryReadings l).Pairwise (· ≤ ·)) {path : ResourcePath}
    (hown : ∀ t ∈ trials l, t.result ≠ none → t.path.text = path.text → t.path = path) :
    (∀ e ∈ l, ∀ readings, e.2.operation = some (.synchronize readings) →
      (passTrials e).map Trial.path = (Hub.planned e.1.hub.driftPlan).map Prod.fst ∧
        (passTrials e).filterMap Trial.tried =
          e.2.attempts.map (fun a => (a.handle.path, a.outcome))) ∧
    (∀ before t after, (trials l).filter (fun t => t.path = path) = before ++ t :: after →
      (t.result = none ↔ Trial.Spent RetryBudget.standard.maxRetries RetryBudget.standard.window
        t.looked before) ∧
      ((∀ f ∈ before, ∀ moment, f.FailedAt moment →
          moment + RetryBudget.standard.window < t.looked) → t.result ≠ none)) ∧
    ∀ before t mid after first,
      (trials l).filter (fun t => t.path = path) = before ++ t :: (mid ++ after) →
      t.FailedAt first → (∀ w, Trial.window RetryBudget.standard.window before = some w →
        w.since + RetryBudget.standard.window < first) →
      (∀ f ∈ mid, f.result = none ∨
        ∃ moment, f.FailedAt moment ∧ moment ≤ first + RetryBudget.standard.window) →
      (mid.filter (fun f => f.result.isSome)).length ≤ RetryBudget.standard.maxRetries := by
  obtain ⟨now, hnow⟩ : ∃ now, ∀ r ∈ retryReadings l, r ≤ now :=
    ⟨(retryReadings l).foldr max 0, fun r hr => List.le_max_of_le' 0 hr (Nat.le_refl r)⟩
  have hrationed := (hi.tallies h hclock hnow).rationed
  refine ⟨hi.passTrials_spec h, ?_, ?_⟩
  · intro before t after hl
    have hskipped := hrationed.own hown hl
    refine ⟨hskipped, fun hlong hnone => ?_⟩
    obtain ⟨f, hf, moment, hfailed, hrecent⟩ := (hskipped.mp hnone).exists_failedAt
    exact Nat.not_lt.mpr hrecent (hlong f hf moment hfailed)
  · intro before t mid after first hl hfirst hopens hmid
    have halone : ∀ past f rest, (trials l).filter (fun t => t.path = path) = past ++ f :: rest →
        f.result ≠ none → ¬ Trial.Spent RetryBudget.standard.maxRetries
          RetryBudget.standard.window f.looked past :=
      fun past f rest hf htried hspent => htried ((hrationed.own hown hf).mpr hspent)
    have hlooked : ∀ f ∈ (trials l).filter (fun t => t.path = path), ∀ moment,
        f.FailedAt moment → f.looked ≤ moment :=
      fun f hf moment hfailed => looked_le_of_failedAt hclock (List.mem_filter.mp hf).1 hfailed
    exact (Trial.window_failures halone hlooked hl hfirst hopens hmid).2

/-! ## Strays -/

/-- A report of a resource that is held by a place which does not exist. -/
def strayReport (cls name : String) : ExporterMessage :=
  .resource ⟨some ("rack", name), cls, SortedMap.empty, "attic", true⟩

/-- A pass that begins at a moment, and waits ten seconds for an answer which does not come. -/
def missedPass (now : Nat) : Scene := ⟨now + 10000, .synchronize [now, now, now + 10000], []⟩

/-- An exporter publishes a stray, and does not answer in four passes. -/
def strayScenes (cls name : String) : List Scene :=
  [⟨0, .event .exporterOpens, []⟩,
   ⟨0, .event (.exporterSends 0 (.startup "lab" "1")), []⟩,
   ⟨1, .event (.exporterSends 0 (strayReport cls name)), []⟩,
   missedPass 5000, missedPass 15000, missedPass 25000, missedPass 35000]

/-- The next pass finds the retries of the stray relay spent. Much later there is another one. -/
def relayScenes : List Scene :=
  strayScenes "Power" "relay" ++ [⟨45000, .synchronize [45000, 45000], []⟩, missedPass 350000]

/-- A trial of the stray relay that fails for want of an answer. -/
def missedTrial (looked : Nat) : Trial :=
  ⟨⟨"lab", "rack", "Power", "relay"⟩, looked, some (.failed .expired, looked + 10000)⟩

/-- The trials that spend the retries of the relay. -/
def missedTrials : List Trial := [5000, 15000, 25000, 35000].map missedTrial

/-- The stray relay is skipped for its own failures, and commanded again when the window has
passed. -/
theorem retry_budget_relay :
    trials (empty.stages relayScenes) = missedTrials ++
        [⟨⟨"lab", "rack", "Power", "relay"⟩, 45000, none⟩, missedTrial 350000] ∧
      Trial.Spent 3 300000 45000 missedTrials ∧ (missedTrial 350000).result ≠ none := by
  have hstart : Station.start ⟨1000, 1000⟩ none = .ok empty := rfl
  have hi := itinerary_stages empty relayScenes
  have hplain : ResourcePath.Plain ⟨"lab", "rack", "Power", "relay"⟩ := by decide +kernel
  have htrials : trials (empty.stages relayScenes) = missedTrials ++
      [⟨⟨"lab", "rack", "Power", "relay"⟩, 45000, none⟩, missedTrial 350000] := by
    decide +kernel
  obtain ⟨_, hskipped, _⟩ := Itinerary.retry_budget hstart hi (by decide +kernel)
    (fun _ _ _ => hplain.eq_of_text_eq)
  have hnow := hskipped missedTrials ⟨⟨"lab", "rack", "Power", "relay"⟩, 45000, none⟩
    [missedTrial 350000] (by decide +kernel)
  have hlater := hskipped
    (missedTrials ++ [⟨⟨"lab", "rack", "Power", "relay"⟩, 45000, none⟩]) (missedTrial 350000) []
    (by decide +kernel)
  refine ⟨htrials, hnow.1.mp rfl, hlater.2 ?_⟩
  rintro f hf moment ⟨cause, hresult⟩
  have hold : ∀ f ∈ missedTrials ++ [⟨⟨"lab", "rack", "Power", "relay"⟩, 45000, none⟩],
      ∀ r ∈ f.result, r.2 + 300000 < 350000 := by
    decide
  exact hold f hf _ hresult

/-- The stray of class `Power/x` is skipped for the failures of the stray with name `x/relay`. It
has never been commanded itself. -/
theorem shared_budget :
    ∃ l s, Itinerary empty l s ∧ (retryReadings l).Pairwise (· ≤ ·) ∧
      (∃ t ∈ trials l, t.path = ⟨"lab", "rack", "Power/x", "relay"⟩ ∧ t.result = none) ∧
      ∀ t ∈ trials l, t.path = ⟨"lab", "rack", "Power/x", "relay"⟩ → t.result = none :=
  ⟨_, _, itinerary_stages empty (strayScenes "Power" "x/relay" ++
      [⟨45000, .event (.exporterSends 0 (strayReport "Power/x" "relay")), []⟩,
       ⟨50000, .synchronize [50000, 50000, 50000], []⟩]),
    by decide +kernel, by decide +kernel, by decide +kernel⟩

end Station

end BoardFarm
