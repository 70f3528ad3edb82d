import BoardFarm.Proofs.Performance

/-!
# Commands in full

What a command comes to depends on two things: the hub in which it is tried, and what happens until
its outcome is known. So the commands of a place are told one behind the other, without the run that
tries them.

* `Hub.attempt`, `Hub.Trials`: commands in a row, each in the hub that the one before has left.
* `Hub.tried`: the commands of an operation, each with the hub in which it is tried.
* `Run.acquireEach_tried`: the commands of an acquisition, and of the way back after a failure.
* `Hub.TakesTurns`, `Run.releaseEach_tried`: the commands of a release.
-/

namespace BoardFarm

namespace Hub

/-! ## Trials -/

/-- The hub with a command about a handle in the queue of a link. -/
def queued (hub : Hub) (id : Nat) (h : Handle) (place : Option String) : Hub :=
  Run.withChannel hub id (fun ch => ch.submit ⟨h.path.group, h.path.name, place⟩)

/-- A command that is tried while some events happen. It is queued if the exporter of the handle
is connected; otherwise it fails at once. -/
def attempt (hub : Hub) (h : Handle) (place : Option String) (events : List Event) : Attempt :=
  match hub.linkOf h.path.exporter with
  | none => ⟨h, place, false, .failed .unknown, hub⟩
  | some id =>
    let command := Run.nextCommand hub id
    let waited := (hub.queued id h place).applyAll events
    ⟨h, place, true, Run.outcomeOf waited id command,
      Run.withChannel waited id (fun ch => ch.abandon command)⟩

/-- The commands of an operation, each with the hub in which it is tried: at first the hub in
which the operation starts, then the hub in which the command before is done with. -/
def tried (tells : Bool) (hub : Hub) : List Attempt → List (Hub × Attempt)
  | [] => []
  | a :: rest => (hub, a) :: tried tells (a.settled tells) rest

/-- Commands that are tried one behind the other, each in the hub that is left when the one before
is done with. -/
inductive Trials : Hub → List Attempt → Hub → Prop
  | nil (hub : Hub) : Trials hub [] hub
  | cons {hub hub' : Hub} {l : List Attempt} (h : Handle) (place : Option String)
      (events : List Event) (rest : Trials ((hub.attempt h place events).settled true) l hub') :
      Trials hub (hub.attempt h place events :: l) hub'

/-- The commands of a release, in the order of the handles: one for each handle that is no orphan
when its turn comes. -/
inductive TakesTurns : Hub → List Handle → List Attempt → Prop
  | nil (hub : Hub) : TakesTurns hub [] []
  | orphan {hub : Hub} {h : Handle} {handles : List Handle} {l : List Attempt}
      (horphan : hub.isOrphaned h = true) (rest : TakesTurns hub handles l) :
      TakesTurns hub (h :: handles) l
  | turn {hub : Hub} {a : Attempt} {handles : List Handle} {l : List Attempt}
      (hflag : hub.isOrphaned a.handle = false) (hplace : a.place = none)
      (rest : TakesTurns (a.settled true) handles l) :
      TakesTurns hub (a.handle :: handles) (a :: l)

section Attempt

variable {hub : Hub} {h : Handle} (place : Option String) (events : List Event)

theorem attempt_of_none (hid : hub.linkOf h.path.exporter = none) :
    hub.attempt h place events = ⟨h, place, false, .failed .unknown, hub⟩ := by
  unfold attempt
  rw [hid]

theorem attempt_of_some {id : Nat} (hid : hub.linkOf h.path.exporter = some id) :
    hub.attempt h place events =
      ⟨h, place, true,
        Run.outcomeOf ((hub.queued id h place).applyAll events) id (Run.nextCommand hub id),
        Run.withChannel ((hub.queued id h place).applyAll events) id
          (fun ch => ch.abandon (Run.nextCommand hub id))⟩ := by
  unfold attempt
  rw [hid]

variable (hub h)

@[simp]
theorem handle_attempt : (hub.attempt h place events).handle = h := by
  unfold attempt
  split <;> rfl

@[simp]
theorem place_attempt : (hub.attempt h place events).place = place := by
  unfold attempt
  split <;> rfl

theorem sent_attempt :
    (hub.attempt h place events).sent = (hub.linkOf h.path.exporter).isSome := by
  cases hid : hub.linkOf h.path.exporter with
  | none => rw [attempt_of_none place events hid, Option.isSome_none]
  | some id => rw [attempt_of_some place events hid, Option.isSome_some]

theorem outcome_of_unsent (hsent : (hub.attempt h place events).sent = false) :
    (hub.attempt h place events).outcome = .failed .unknown := by
  rw [sent_attempt, Option.isSome_eq_false_iff, Option.isNone_iff_eq_none] at hsent
  rw [attempt_of_none place events hsent]

theorem exchange_attempt (tells : Bool) :
    Exchange tells hub [] (hub.attempt h place events).hub := by
  cases hid : hub.linkOf h.path.exporter with
  | none =>
    rw [attempt_of_none place events hid]
    exact .refl
  | some id =>
    rw [attempt_of_some place events hid]
    have hqueued : Exchange tells hub [] (hub.queued id h place) :=
      Exchange.refl.stir (.channel id _)
    have hwait := hqueued.trans (Run.exchange_applyAll events)
    exact hwait.stir (.channel id (fun ch => ch.abandon (Run.nextCommand hub id)))

end Attempt

variable {hub hub₁ hub' : Hub} {l l' : List Attempt} {a : Attempt}

theorem Trials.trans (h : Trials hub l hub₁) (h' : Trials hub₁ l' hub') :
    Trials hub (l ++ l') hub' := by
  induction h with
  | nil => exact h'
  | cons x place events _ ih => exact .cons x place events (ih h')

theorem Trials.exchange (h : Trials hub l hub') : Exchange true hub l hub' := by
  induction h with
  | nil => exact .refl
  | @cons hub _ _ x place events _ ih =>
    exact (exchange_attempt hub x place events true).settle.trans ih

/-- A command in a row, in the hub in which it is tried. -/
theorem Trials.split (h : Trials hub (l ++ a :: l') hub') :
    ∃ mid events, Trials hub l mid ∧ a = mid.attempt a.handle a.place events ∧
      Trials (a.settled true) l' hub' := by
  induction l generalizing hub with
  | nil =>
    cases h with
    | cons x place events rest => exact ⟨hub, events, .nil hub, by simp, rest⟩
  | cons b l ih =>
    cases h with
    | cons x place events rest =>
      obtain ⟨mid, events', hfirst, ha, hrest⟩ := ih rest
      exact ⟨mid, events', .cons x place events hfirst, ha, hrest⟩

theorem Trials.last (h : Trials hub [a] hub') : hub' = a.settled true := by
  obtain ⟨_, _, _, _, hrest⟩ := Trials.split (l := []) h
  generalize a.settled true = hub₁ at hrest
  cases hrest
  rfl

/-- Every command of a row is tried in the hub that the rows before it have left. -/
theorem Trials.tried (h : Trials hub l hub') {e : Hub × Attempt} (he : e ∈ hub.tried true l) :
    ∃ events, e.2 = e.1.attempt e.2.handle e.2.place events := by
  induction h with
  | nil => cases he
  | cons x place events _ ih =>
    rcases List.mem_cons.mp he with rfl | hrest
    · exact ⟨events, by simp⟩
    · exact ih hrest

theorem map_snd_tried (tells : Bool) (hub : Hub) (l : List Attempt) :
    (hub.tried tells l).map Prod.snd = l := by
  induction l generalizing hub with
  | nil => rfl
  | cons a rest ih => exact congrArg (List.cons a) (ih (a.settled tells))

theorem mem_of_mem_tried {tells : Bool} {hub : Hub} {l : List Attempt} {e : Hub × Attempt}
    (he : e ∈ hub.tried tells l) : e.2 ∈ l := by
  rw [← map_snd_tried tells hub l]
  exact List.mem_map_of_mem he

/-- Each command of a row is queued just if the exporter of its handle is connected when its turn
comes. -/
theorem Trials.sent (h : Trials hub l hub') {e : Hub × Attempt} (he : e ∈ hub.tried true l) :
    e.2.sent = (e.1.linkOf e.2.handle.path.exporter).isSome ∧
      (e.2.sent = false → e.2.outcome = .failed .unknown) := by
  obtain ⟨events, ha⟩ := h.tried he
  rw [ha, handle_attempt]
  exact ⟨sent_attempt .., outcome_of_unsent _ _ _ _⟩

/-- A command that is confirmed has been queued. -/
theorem Trials.sent_of_done (h : Trials hub l hub') (ha : a ∈ l) (hdone : a.outcome = .done) :
    a.sent = true := by
  rw [← map_snd_tried true hub l] at ha
  obtain ⟨e, he, rfl⟩ := List.mem_map.mp ha
  cases hsent : e.2.sent with
  | true => rfl
  | false =>
    rw [(h.sent he).2 hsent] at hdone
    cases hdone

/-- What is to be released takes its turn unless it is an orphan then. -/
theorem TakesTurns.tried {handles : List Handle} (h : TakesTurns hub handles l)
    {e : Hub × Attempt} (he : e ∈ hub.tried true l) :
    e.2.handle ∈ handles ∧ e.1.isOrphaned e.2.handle = false ∧ e.2.place = none := by
  induction h with
  | nil => cases he
  | orphan _ _ ih =>
    obtain ⟨hhandle, hturn⟩ := ih he
    exact ⟨List.mem_cons_of_mem _ hhandle, hturn⟩
  | turn hflag hplace _ ih =>
    rcases List.mem_cons.mp he with rfl | hrest
    · exact ⟨List.mem_cons_self, hflag, hplace⟩
    · obtain ⟨hhandle, hturn⟩ := ih hrest
      exact ⟨List.mem_cons_of_mem _ hhandle, hturn⟩

end Hub

/-- Commands for some handles, in this order, to have the same holder. -/
def Asks (place : Option String) (handles : List Handle) (l : List Attempt) : Prop :=
  l.map (fun a => (a.handle, a.place)) = handles.map (fun h => (h, place))

theorem Asks.place_eq {place : Option String} {handles : List Handle} {l : List Attempt}
    (h : Asks place handles l) {a : Attempt} (ha : a ∈ l) :
    a.handle ∈ handles ∧ a.place = place := by
  have hmem : (a.handle, a.place) ∈ handles.map (fun h => (h, place)) :=
    h ▸ List.mem_map_of_mem ha
  obtain ⟨x, hx, he⟩ := List.mem_map.mp hmem
  obtain ⟨rfl, rfl⟩ := Prod.mk.inj he
  exact ⟨hx, rfl⟩

theorem Asks.cons {place : Option String} {handles : List Handle} {l : List Attempt} {a : Attempt}
    (hplace : a.place = place) (h : Asks place handles l) :
    Asks place (a.handle :: handles) (a :: l) := by
  unfold Asks at h ⊢
  rw [List.map_cons, List.map_cons, h, hplace]

namespace Run

variable {ω : Type} {react : Surroundings ω}

/-- A run tries some commands, and does nothing else. -/
def Tried (r : Run ω) (l : List Attempt) (r' : Run ω) : Prop :=
  r'.attempts = r.attempts ++ l ∧ Hub.Trials r.hub l r'.hub

theorem Tried.refl (r : Run ω) : Tried r [] r := ⟨by simp, .nil r.hub⟩

theorem Tried.trans {r r₁ r₂ : Run ω} {l l' : List Attempt} (h : Tried r l r₁)
    (h' : Tried r₁ l' r₂) : Tried r (l ++ l') r₂ := by
  refine ⟨?_, h.2.trans h'.2⟩
  rw [h'.1, h.1, List.append_assoc]

theorem Tried.single {r r' : Run ω} {h : Handle} {place : Option String} {events : List Event}
    (hattempts : r'.attempts = r.attempts ++ [r.hub.attempt h place events])
    (hhub : r'.hub = (r.hub.attempt h place events).settled true) :
    Tried r [r.hub.attempt h place events] r' := by
  refine ⟨hattempts, .cons h place events ?_⟩
  rw [hhub]
  exact .nil _

/-- A command is tried while the surroundings do something; a confirmed holder is noted. -/
theorem command_attempt (react : Surroundings ω) (r : Run ω) (h : Handle)
    (place : Option String) :
    ∃ events, (r.command react h place).1 = (r.hub.attempt h place events).outcome ∧
      (r.command react h place).2.attempts = r.attempts ++ [r.hub.attempt h place events] ∧
      (r.command react h place).2.hub = (r.hub.attempt h place events).settled false := by
  unfold command
  split
  · rename_i hid
    refine ⟨[], ?_⟩
    rw [Hub.attempt_of_none place [] hid]
    exact ⟨rfl, rfl, rfl⟩
  · rename_i id hid
    have hexchange : r.exchange react id ⟨h.path.group, h.path.name, place⟩ =
        (outcomeOf ((r.hub.queued id h place).applyAll (react (r.hub.queued id h place) r.around).1)
            id (nextCommand r.hub id),
          ⟨withChannel ((r.hub.queued id h place).applyAll
              (react (r.hub.queued id h place) r.around).1) id
              (fun ch => ch.abandon (nextCommand r.hub id)),
            (react (r.hub.queued id h place) r.around).2, r.attempts⟩) := rfl
    refine ⟨(react (r.hub.queued id h place) r.around).1, ?_⟩
    rw [Hub.attempt_of_some place _ hid, hexchange]
    generalize outcomeOf _ id (nextCommand r.hub id) = o
    cases o <;> exact ⟨rfl, rfl, rfl⟩

theorem acquire_tried (react : Surroundings ω) (r : Run ω) (h : Handle) (name : String) :
    ∃ events, (r.command react h (some name)).1 =
        (r.hub.attempt h (some name) events).outcome ∧
      Tried r [r.hub.attempt h (some name) events] (r.command react h (some name)).2 := by
  obtain ⟨events, houtcome, hattempts, hhub⟩ := command_attempt react r h (some name)
  have htold : (r.hub.attempt h (some name) events).place.isSome ∨ true = false := by simp
  rw [settled_of_untold htold] at hhub
  exact ⟨events, houtcome, .single hattempts hhub⟩

theorem release_tried (react : Surroundings ω) (r : Run ω) (h : Handle) :
    ∃ events, Tried r [r.hub.attempt h none events] (release react r h) := by
  obtain ⟨events, houtcome, hattempts, hhub⟩ := command_attempt react r h none
  refine ⟨events, .single ?_ ?_⟩
  · unfold release
    dsimp only
    split <;> exact hattempts
  · unfold release
    dsimp only
    cases ho : (r.command react h none).1 with
    | done =>
      rw [ho] at houtcome
      simp [hhub, Attempt.settled, ← houtcome]
    | failed cause =>
      rw [ho] at houtcome
      simp [modify, hhub, Attempt.settled, ← houtcome]

/-- Handles are released one after another. -/
theorem foldl_release_tried (react : Surroundings ω) (handles : List Handle) (r : Run ω) :
    ∃ l, Tried r l (handles.foldl (release react) r) ∧ Asks none handles l := by
  induction handles generalizing r with
  | nil => exact ⟨[], .refl r, rfl⟩
  | cons h rest ih =>
    obtain ⟨events, hfirst⟩ := release_tried react r h
    obtain ⟨l, hl, hasks⟩ := ih (release react r h)
    have hboth := Asks.cons (Hub.place_attempt r.hub h none events) hasks
    rw [Hub.handle_attempt] at hboth
    exact ⟨_, hfirst.trans hl, hboth⟩

/-- The handles of a list are acquired in order, or one of them is refused; then those before it
are given back, and with them what had been acquired before, the last one first. -/
theorem acquireEach_tried (react : Surroundings ω) (name : String) (handles acquired : List Handle)
    (r : Run ω) :
    (∃ l r', acquireEach react name handles acquired r = (.ok (acquired ++ handles), r') ∧
      Tried r l r' ∧ Asks (some name) handles l ∧ ∀ a ∈ l, a.outcome = .done) ∨
    ∃ done rest granted failed released cause r', handles = done ++ failed.handle :: rest ∧
      acquireEach react name handles acquired r =
        (.error (.exporter failed.handle.path cause), r') ∧
      Tried r (granted ++ failed :: released) r' ∧
      (Asks (some name) done granted ∧ ∀ a ∈ granted, a.outcome = .done) ∧
      (failed.place = some name ∧ failed.outcome = .failed cause) ∧
      Asks none (acquired ++ done).reverse released := by
  induction handles generalizing acquired r with
  | nil =>
    refine Or.inl ⟨[], r, ?_, .refl r, rfl, fun a ha => by cases ha⟩
    rw [List.append_nil]
    rfl
  | cons h rest ih =>
    obtain ⟨events, houtcome, htried⟩ := acquire_tried react r h name
    generalize ha : r.hub.attempt h (some name) events = a at houtcome htried
    have hhandle : a.handle = h := by rw [← ha, Hub.handle_attempt]
    have hplace : a.place = some name := by rw [← ha, Hub.place_attempt]
    unfold acquireEach
    dsimp only
    cases ho : (r.command react h (some name)).1 with
    | done =>
      have hdone : a.outcome = .done := by rw [← houtcome, ho]
      have hall : ∀ {l : List Attempt}, (∀ b ∈ l, b.outcome = .done) →
          ∀ b ∈ a :: l, b.outcome = .done := by
        intro l hl b hb
        rcases List.mem_cons.mp hb with rfl | hb
        · exact hdone
        · exact hl b hb
      dsimp only
      rcases ih (acquired ++ [h]) (r.command react h (some name)).2 with
        ⟨l, r', he, hl, hasks, hl'⟩ |
        ⟨done, rest', granted, failed, released, cause, r', rfl, he, hl, ⟨hasks, hl'⟩, hfailed,
          hback⟩
      · left
        refine ⟨a :: l, r', ?_, htried.trans hl, ?_, hall hl'⟩
        · rw [he, List.append_assoc]
          rfl
        · rw [← hhandle]
          exact hasks.cons hplace
      · right
        refine ⟨h :: done, rest', a :: granted, failed, released, cause, r', rfl, he,
          htried.trans hl, ⟨?_, hall hl'⟩, hfailed, ?_⟩
        · rw [← hhandle]
          exact hasks.cons hplace
        · rw [List.append_assoc] at hback
          exact hback
    | failed cause =>
      right
      obtain ⟨released, hl, hback⟩ := foldl_release_tried react acquired.reverse
        (r.command react h (some name)).2
      refine ⟨[], rest, [], a, released, cause, _, ?_, ?_, htried.trans hl,
        ⟨rfl, fun b hb => by cases hb⟩, ⟨hplace, ?_⟩, ?_⟩
      · rw [hhandle]
        rfl
      · rw [hhandle]
      · rw [← houtcome, ho]
      · rw [List.append_nil]
        exact hback

/-- The handles of a list are released in order, but for the orphans. -/
theorem releaseEach_tried (react : Surroundings ω) (handles : List Handle) (r : Run ω) :
    ∃ l, Tried r l (releaseEach react handles r) ∧ r.hub.TakesTurns handles l := by
  unfold releaseEach
  induction handles generalizing r with
  | nil => exact ⟨[], .refl r, .nil r.hub⟩
  | cons h rest ih =>
    rw [List.foldl_cons]
    split
    · rename_i horphan
      obtain ⟨l, hl, hturns⟩ := ih r
      exact ⟨l, hl, .orphan horphan hturns⟩
    · rename_i hflag
      obtain ⟨events, htried⟩ := release_tried react r h
      generalize ha : r.hub.attempt h none events = a at htried
      have hhandle : a.handle = h := by rw [← ha, Hub.handle_attempt]
      have hplace : a.place = none := by rw [← ha, Hub.place_attempt]
      obtain ⟨l, hl, hturns⟩ := ih (release react r h)
      rw [htried.2.last] at hturns
      refine ⟨a :: l, htried.trans hl, ?_⟩
      rw [← hhandle] at hflag ⊢
      exact .turn (by simpa using hflag) hplace hturns

end Run

end BoardFarm
