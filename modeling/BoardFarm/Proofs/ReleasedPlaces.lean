import BoardFarm.Proofs.Announcements
import BoardFarm.Proofs.ReportedHolders

/-!
# Released places

A release frees the place, whatever becomes of the commands. It does so for the user who holds the
place, or on behalf of nobody; another user can not release it. What the place has held is released
as far as the exporters follow, and what they do not give back is told.

* `Run.releasePlace_cases`: what a release comes to.
* `Hub.freed_completeRelease`: the place behind a release.
* `Hub.Trials.announces`: failed releases are told to the subscribers.
* `Station.Course.release_frees`: the same for every release of a course.
* `Station.reported_relay`: a confirmed release, and a report of another holder behind it.
-/

namespace BoardFarm

namespace Run

variable {ω : Type} {react : Surroundings ω} {now : Nat} {name : String} {user : Option String}
  {hub : Hub} {around : ω} {p : Place} {result : Except RequestError Unit} {r : Run ω}

/-- A release is not for the user, it finds the place free, or the handles of the place are released
in order, and then the place is freed. -/
theorem releasePlace_cases (hp : hub.places.get? name = some p)
    (h : releasePlace react now name user (start hub around) = (result, r)) :
    (user.isSome ∧ p.acquired ≠ user ∧ result = .ok () ∧ r = start hub around) ∨
    (user = none ∧ p.acquired = none ∧ result = .error (.placeFree name) ∧
      r = start hub around) ∨
    (p.acquired.isSome ∧ (user = none ∨ user = p.acquired) ∧ result = .ok () ∧
      ∃ mid, Hub.Trials hub r.attempts mid ∧ hub.TakesTurns p.held r.attempts ∧
        r.hub = mid.completeRelease now name) := by
  have hp' : (start hub around).hub.places.get? name = some p := hp
  unfold releasePlace at h
  rw [hp'] at h
  dsimp only at h
  split at h
  · rename_i hother
    obtain ⟨rfl, rfl⟩ := Prod.mk.inj h
    simp only [Bool.and_eq_true, bne_iff_ne] at hother
    exact Or.inl ⟨hother.1, hother.2, rfl, rfl⟩
  · rename_i hsame
    have huser : user = none ∨ user = p.acquired := by
      cases user with
      | none => exact Or.inl rfl
      | some u =>
        simp only [Option.isSome_some, Bool.true_and, bne_iff_ne, ne_eq, not_not] at hsame
        exact Or.inr hsame.symm
    split at h
    · rename_i hfree
      obtain ⟨rfl, rfl⟩ := Prod.mk.inj h
      have hfree' : p.acquired = none := Option.isNone_iff_eq_none.mp hfree
      exact Or.inr (Or.inl ⟨huser.elim id (fun he => he.trans hfree'), hfree', rfl, rfl⟩)
    · rename_i hheld
      obtain ⟨rfl, rfl⟩ := Prod.mk.inj h
      obtain ⟨l, ⟨hl, htrials⟩, hturns⟩ := releaseEach_tried react p.held (start hub around)
      have hl' : (releaseEach react p.held (start hub around)).attempts = l := hl
      refine Or.inr (Or.inr ⟨Option.isSome_iff_ne_none.mpr (by simpa using hheld), huser, rfl,
        (releaseEach react p.held (start hub around)).hub, ?_⟩)
      show Hub.Trials hub (releaseEach react p.held (start hub around)).attempts _ ∧
        hub.TakesTurns p.held (releaseEach react p.held (start hub around)).attempts ∧ _
      rw [hl']
      exact ⟨htrials, hturns, rfl⟩

end Run

namespace Hub

variable {hub hub₁ hub' : Hub} {l : List Attempt}

/-- The place behind a release. -/
theorem freed_completeRelease (hn : hub.Named) {name : String} {p : Place}
    (hp : hub.places.get? name = some p) (now : Nat) :
    Writes hub (hub.completeRelease now name) ∧
      ∃ p', (hub.completeRelease now name).places.get? name = some p' ∧ p'.acquired = none ∧
        p'.held = [] ∧ p'.allowed = SortedMap.empty := by
  have hname : p.name = name := hn name p hp
  obtain ⟨p', hp', hsame⟩ := retains_stored hn
    (({ p with acquired := none, held := [], allowed := SortedMap.empty } : Place).touch now) now
  unfold completeRelease
  rw [hp]
  refine ⟨writes_schedule (writes_markDirty (.single (.store _))) now, p', ?_, hsame.acquired,
    hsame.held, hsame.allowed rfl⟩
  rw [← hname]
  exact hp'

/-- When releases in a row have failed, the present state of each resource has been told, and stays
told. -/
theorem Trials.announces (h : Trials hub l hub₁) (hf : hub.Filed) (hn : hub.clients.Numbered)
    (hreleases : ∀ a ∈ l, a.place = none) (hlater : Remembers hub₁ hub') {a : Attempt} (ha : a ∈ l)
    (hfailed : a.outcome ≠ .done) :
    Announces (.resource (a.hub.viewOf a.handle)) a.hub hub' := by
  obtain ⟨before, later, rfl⟩ := List.append_of_mem ha
  obtain ⟨mid, events, hpast, hattempt, hrest⟩ := h.split
  have hwait : Exchange true mid [] a.hub := by
    rw [hattempt]
    exact exchange_attempt ..
  have htried := hpast.exchange.trans hwait
  have hsettled : (a.settled true).Filed := htried.settle.filed hf
  exact announces_failure ((htried.remembers hf).numbered hn) (hreleases a ha) hfailed
    ((hrest.exchange.remembers hsettled).trans hlater)

/-- Only what is to be released takes a turn. -/
theorem TakesTurns.mem {handles : List Handle} (h : TakesTurns hub handles l) {a : Attempt}
    (ha : a ∈ l) : a.handle ∈ handles ∧ a.place = none := by
  rw [← map_snd_tried true hub l] at ha
  obtain ⟨e, he, rfl⟩ := List.mem_map.mp ha
  obtain ⟨hhandle, _, hplace⟩ := h.tried he
  exact ⟨hhandle, hplace⟩

end Hub

/-! ## Courses -/

namespace Station

variable {settings : HubSettings} {directory : Option StateDirectory} {start s : Station}
  {turns : List Turn} {ω : Type} {react : Surroundings ω} {around : ω} {now : Nat}
  {name : String} {user : Option String} {p : Place} {result : Except RequestError Unit}
  {r : Run ω}

/-- A release for a user who does not hold the place does nothing, and a release for nobody fails if
the place is free. Otherwise each handle of the place takes its turn, in order, unless it is an
orphan by then; a command is sent just if the exporter is connected in this turn, and fails
otherwise. Whatever comes of the commands, the place ends free. A confirmed release has left its
resource free, and only a report of the exporter during a later command of the same release can
give it a holder again. After a release that has failed, the state of the resource has been told to
all clients that follow resources. -/
theorem Course.release_frees (h : Station.start settings directory = .ok start)
    (hc : Course start turns s) (hp : s.hub.places.get? name = some p)
    (hr : Run.releasePlace react now name user (Run.start s.hub around) = (result, r)) :
    (user.isSome → p.acquired ≠ user → result = .ok () ∧ r = Run.start s.hub around) ∧
    (user = none → p.acquired = none →
      result = .error (.placeFree name) ∧ r = Run.start s.hub around) ∧
    (p.acquired.isSome → (user = none ∨ user = p.acquired) → result = .ok () ∧
      s.hub.TakesTurns p.held r.attempts ∧
      (∀ e ∈ s.hub.tried true r.attempts,
        e.2.sent = (e.1.linkOf e.2.handle.path.exporter).isSome ∧
          (e.2.sent = false → e.2.outcome = .failed .unknown)) ∧
      (∃ mid, Hub.Trials s.hub r.attempts mid ∧ r.hub = mid.completeRelease now name) ∧
      (∃ p', r.hub.places.get? name = some p' ∧ p'.acquired = none ∧ p'.held = [] ∧
        p'.allowed = SortedMap.empty) ∧
      Hub.Frees r.attempts r.hub ∧
      ∀ a ∈ r.attempts, a.outcome ≠ .done →
        Hub.Announces (.resource (a.hub.viewOf a.handle)) a.hub r.hub) := by
  obtain ⟨hn, hf⟩ := hc.filed h
  rcases Run.releasePlace_cases hp hr with ⟨huser, hother, rfl, rfl⟩ | ⟨rfl, hfree, rfl, rfl⟩ |
    ⟨hheld, huser, rfl, mid, htrials, hturns, hhub⟩
  · refine ⟨fun _ _ => ⟨rfl, rfl⟩, fun he => ?_, fun _ he => ?_⟩
    · rw [he] at huser
      cases huser
    · rcases he with rfl | rfl
      · cases huser
      · exact absurd rfl hother
  · refine ⟨fun he => (by cases he), fun _ _ => ⟨rfl, rfl⟩, fun he => ?_⟩
    rw [hfree] at he
    cases he
  · refine ⟨fun he hother => ?_, fun _ hfree => ?_, fun _ _ => ?_⟩
    · rcases huser with rfl | rfl
      · cases he
      · exact absurd rfl hother
    · rw [hfree] at hheld
      cases hheld
    · have hquiet := htrials.exchange.quiet
      have hp₁ : mid.places.get? name = some p := by
        rw [hquiet.places]
        exact hp
      obtain ⟨hwrites, p', hp', hends⟩ :=
        Hub.freed_completeRelease (hn.of_places hquiet.places) hp₁ now
      rw [← hhub] at hwrites hp'
      have howns : ∀ a ∈ r.attempts, s.hub.OwnsRecord a.handle := by
        intro a ha
        obtain ⟨hserial, halone⟩ := hc.eq_of_serial h
          ⟨p, SortedMap.mem_values_iff.mpr ⟨name, hp⟩, (hturns.mem ha).1⟩
        exact ⟨hserial, halone⟩
      have hrow : Hub.Trials s.hub ([] ++ r.attempts) mid := htrials
      have hfrees : Hub.Frees r.attempts mid :=
        hrow.frees hf (fun a ha => (hturns.mem ha).2) howns
      refine ⟨rfl, hturns, fun e he => htrials.sent he, ⟨mid, htrials, hhub⟩, ⟨p', hp', hends⟩,
        hfrees.of_records hwrites.aside.2, ?_⟩
      exact fun a ha hfailed => htrials.announces hf (hc.clients_numbered h)
        (fun a ha => (hturns.mem ha).2) hwrites.remembers ha hfailed

/-- The user of the laboratory with two resources acquires both. -/
def benchScenes : List Scene :=
  twinScenes ++
    [⟨6, .request (Identifier.ofNat .reservation 3) (some "desk") (.acquire "bench"),
      [[.exporterTakes 0, .exporterTakes 0, .exporterSends 0 (.response Answer.done)],
       [.exporterTakes 0, .exporterSends 0 (.response Answer.done)]]⟩]

/-- The laboratory with two resources that are held. -/
def busy : Station := (empty.play benchScenes).2

/-- The place is released on behalf of a user, or of nobody. -/
def freeBench (user : Option String) (waits : List (List Event)) :
    Except RequestError Unit × Run (List (List Event)) :=
  Run.releasePlace scripted 7 "bench" user (Run.start busy.hub waits)

/-- Only the user who holds the place can release it; then it is free, even if the exporter does not
answer. -/
theorem release_frees_silence :
    ((freeBench (some "alice") []).1 = .ok () ∧
      (∃ p, (freeBench (some "alice") []).2.hub.places.get? "bench" = some p ∧
        p.acquired = none ∧ p.held = [] ∧ p.allowed = SortedMap.empty) ∧
      (freeBench (some "alice") []).2.attempts.map (fun a => (a.handle.path.name, a.outcome)) =
        [("relay", .failed .expired), ("switch", .failed .expired)] ∧
      ∀ a ∈ (freeBench (some "alice") []).2.attempts, a.outcome ≠ .done →
        Hub.Announces (.resource (a.hub.viewOf a.handle)) a.hub
          (freeBench (some "alice") []).2.hub) ∧
    freeBench (some "bob") [] = (.ok (), Run.start busy.hub []) := by
  have hstart : Station.start ⟨1000, 1000⟩ none = .ok empty := rfl
  have hcourse := course_play empty benchScenes
  obtain ⟨p, hp, hacquired⟩ : ∃ p, busy.hub.places.get? "bench" = some p ∧
      p.acquired = some "alice" := Option.map_eq_some_iff.mp (by decide +kernel)
  have hheld : p.acquired.isSome := by rw [hacquired]; rfl
  constructor
  · obtain ⟨hok, _, _, _, hfree, _, htold⟩ := (Course.release_frees hstart hcourse hp
      (rfl : freeBench (some "alice") [] = (_, _))).2.2 hheld (Or.inr hacquired.symm)
    exact ⟨hok, hfree, by decide +kernel, htold⟩
  · have hother : p.acquired ≠ some "bob" := by
      rw [hacquired]
      decide
    obtain ⟨hok, hsame⟩ := (Course.release_frees hstart hcourse hp
      (rfl : freeBench (some "bob") [] = (_, _))).1 rfl hother
    exact Prod.ext hok hsame

/-- While the release of the second resource waits, the exporter reports a holder of the first. -/
def contested : Except RequestError Unit × Run (List (List Event)) :=
  freeBench (some "alice")
    [[.exporterTakes 0, .exporterSends 0 (.response Answer.done)],
     [.exporterSends 0 (twinReport "relay" "ghost"), .exporterTakes 0,
      .exporterSends 0 (.response Answer.done)]]

/-- So a resource whose release has been confirmed need not be free in the end. -/
theorem reported_relay :
    Course empty (empty.play benchScenes).1 busy ∧ contested.1 = .ok () ∧
      ∃ a ∈ contested.2.attempts, a.place = none ∧ a.outcome = .done ∧
        contested.2.hub.holder a.handle = some "ghost" := by
  have hfound : contested.2.attempts.any (fun a => a.place == none && a.outcome == .done &&
      contested.2.hub.holder a.handle == some "ghost") = true := by decide +kernel
  obtain ⟨a, ha, hsuits⟩ := List.any_eq_true.mp hfound
  simp only [Bool.and_eq_true, beq_iff_eq] at hsuits
  exact ⟨course_play empty benchScenes, by decide +kernel, a, ha, hsuits.1.1, hsuits.1.2, hsuits.2⟩

end Station

end BoardFarm
