import BoardFarm.Proofs.ReportedHolders
import BoardFarm.Proofs.ServiceOrder

/-!
# All or nothing

A user acquires all resources that a place claims, or none of them. The commands go out in a fixed
order; the first one that fails ends the acquisition, and what has been acquired by then is given
back, the last one first. Exporters and clients go on meanwhile, but they leave the places alone.

* `Hub.pairwise_claimed`: the order of the commands.
* `Granted`, `RolledBack`: the commands of an acquisition that succeeds, or fails.
* `Run.acquirePlace_cases`: what an acquisition comes to.
* `Station.Course.all_or_nothing`: the same for every acquisition of a course.
-/

namespace BoardFarm

theorem ResourcePath.acquisitionParts_inj {p q : ResourcePath}
    (h : p.acquisitionParts = q.acquisitionParts) : p = q := by
  cases p
  cases q
  simp only [acquisitionParts, List.cons.injEq, and_true] at h
  obtain ⟨rfl, rfl, rfl, rfl⟩ := h
  rfl

namespace Hub

variable {hub : Hub}

/-- The handles that a place claims come in the order of their parts. -/
theorem pairwise_claimed (hd : (hub.published.map Handle.path).Nodup) (p : Place) :
    (hub.claimed p).Pairwise (fun a b => a.path.acquisitionParts < b.path.acquisitionParts) := by
  let before : Handle → Handle → Bool := fun a b =>
    decide (a.path.acquisitionParts < b.path.acquisitionParts)
  have hasymm : ∀ a b, before a b = true → before b a = false := by
    intro a b h
    simp only [before, decide_eq_true_eq, decide_eq_false_iff_not] at h ⊢
    exact KeyOrder.asymm h
  have hneg : ∀ a b c, before b a = false → before c b = false → before c a = false := by
    intro a b c h h'
    simp only [before, decide_eq_false_iff_not, List.not_lt] at h h' ⊢
    exact List.le_trans h h'
  have hsorted : (hub.claimed p).Pairwise (fun a b => before b a = false) :=
    pairwise_stableSort hasymm hneg _
  have hdistinct : (hub.claimed p).Pairwise (fun a b => a.path ≠ b.path) :=
    List.pairwise_map.mp (Run.nodup_claimed hd p)
  refine (hsorted.and hdistinct).imp ?_
  rintro a b ⟨hle, hne⟩
  simp only [before, decide_eq_false_iff_not] at hle
  by_contra hlt
  exact hne (ResourcePath.acquisitionParts_inj (KeyOrder.connected hlt hle))

theorem mem_claimed_iff {p : Place} {x : Handle} :
    x ∈ hub.claimed p ↔ x ∈ hub.published ∧ p.claims x.path = true := by
  unfold claimed
  rw [mem_stableSort, List.mem_filter]

end Hub

/-- The commands of an acquisition that succeeds: one for each handle, in order, and every one is
confirmed. -/
structure Granted (name : String) (handles : List Handle) (l : List Attempt) : Prop where
  asks : Asks (some name) handles l
  done : ∀ a ∈ l, a.outcome = .done

/-- The commands of an acquisition that fails: the handles in front of some handle are acquired, the
command for that one fails, and those in front of it are released, the last one first. -/
structure RolledBack (name : String) (handles : List Handle) (granted : List Attempt)
    (failed : Attempt) (released : List Attempt) : Prop where
  front : ∃ done rest, handles = done ++ failed.handle :: rest ∧ Granted name done granted ∧
    Asks none done.reverse released
  asks : failed.place = some name
  failed : failed.outcome ≠ .done

namespace Run

variable {ω : Type} {react : Surroundings ω} {now : Nat} {name principal : String}
  {hub : Hub} {around : ω} {result : Except RequestError Unit} {r : Run ω}

/-- An acquisition succeeds with commands for all handles that the place claims, it fails with one
of these commands, or it is refused before the first of them. -/
theorem acquirePlace_cases
    (h : acquirePlace react now name principal (start hub around) = (result, r)) :
    (∃ e, result = .error e ∧ r = start hub around) ∨
    ∃ p, hub.places.get? name = some p ∧ acquisitionError hub p principal = none ∧
      ((∃ mid, result = .ok () ∧ Hub.Trials hub r.attempts mid ∧
          Granted name (hub.claimed p) r.attempts ∧
          r.hub = mid.completeAcquisition now name principal (hub.claimed p)) ∨
        ∃ granted failed released cause, result = .error (.exporter failed.handle.path cause) ∧
          failed.outcome = .failed cause ∧ r.attempts = granted ++ failed :: released ∧
          Hub.Trials hub r.attempts r.hub ∧
          RolledBack name (hub.claimed p) granted failed released) := by
  have hstart : (start hub around).hub = hub := rfl
  unfold acquirePlace at h
  rw [hstart] at h
  cases hp : hub.places.get? name with
  | none =>
    rw [hp] at h
    obtain ⟨rfl, rfl⟩ := Prod.mk.inj h
    exact Or.inl ⟨_, rfl, rfl⟩
  | some p =>
    rw [hp] at h
    dsimp only at h
    cases hallowed : acquisitionError hub p principal with
    | some e =>
      rw [hallowed] at h
      obtain ⟨rfl, rfl⟩ := Prod.mk.inj h
      exact Or.inl ⟨_, rfl, rfl⟩
    | none =>
      unfold acquireAll at h
      rw [hallowed, hstart] at h
      cases hobstacle : (hub.claimed p).findSome? (fun x => hub.obstacle name x) with
      | some e =>
        rw [hobstacle] at h
        obtain ⟨rfl, rfl⟩ := Prod.mk.inj h
        exact Or.inl ⟨_, rfl, rfl⟩
      | none =>
        rw [hobstacle] at h
        dsimp only at h
        refine Or.inr ⟨p, rfl, hallowed, ?_⟩
        rcases acquireEach_tried react name (hub.claimed p) [] (start hub around) with
          ⟨l, r₁, heach, ⟨hl, htrials⟩, hasks, hdone⟩ |
          ⟨done, rest, granted, failed, released, cause, r₁, hfront, heach, ⟨hl, htrials⟩,
            ⟨hasks, hdone⟩, ⟨hplace, hcause⟩, hback⟩
        · rw [heach] at h
          obtain ⟨rfl, rfl⟩ := Prod.mk.inj h
          have hl' : r₁.attempts = l := hl
          refine Or.inl ⟨r₁.hub, rfl, ?_⟩
          show Hub.Trials hub r₁.attempts r₁.hub ∧ Granted name (hub.claimed p) r₁.attempts ∧ _
          rw [hl']
          exact ⟨htrials, ⟨hasks, hdone⟩, rfl⟩
        · rw [heach] at h
          obtain ⟨rfl, rfl⟩ := Prod.mk.inj h
          have hl' : r₁.attempts = granted ++ failed :: released := hl
          refine Or.inr ⟨granted, failed, released, cause, rfl, hcause, hl', ?_, ?_, hplace, ?_⟩
          · rw [hl']
            exact htrials
          · exact ⟨done, rest, hfront, ⟨hasks, hdone⟩, hback⟩
          · rw [hcause]
            exact fun he => by cases he

end Run

namespace Hub

/-- A successful acquisition stores the place with its user and the handles, and a pass follows. -/
theorem completeAcquisition_eq {hub : Hub} (hn : hub.Named) {name : String} {p : Place}
    (hp : hub.places.get? name = some p) (now : Nat) (principal : String)
    (handles : List Handle) :
    ∃ q : Place, q.name = name ∧ q.acquired = some principal ∧ q.held = p.held ++ handles ∧
      hub.completeAcquisition now name principal handles =
        ((hub.storePlace q).markDirty).schedule now := by
  unfold completeAcquisition
  rw [hp]
  exact ⟨({ p with acquired := some principal, held := p.held ++ handles } : Place).touch now,
    hn name p hp, rfl, rfl, rfl⟩

/-- The place behind a successful acquisition. -/
theorem acquired_completeAcquisition {hub : Hub} (hn : hub.Named) {name : String} {p : Place}
    (hp : hub.places.get? name = some p) (now : Nat) (principal : String)
    (handles : List Handle) :
    ∃ p', (hub.completeAcquisition now name principal handles).places.get? name = some p' ∧
      p'.acquired = some principal ∧ p'.held = p.held ++ handles := by
  obtain ⟨q, rfl, hacquired, hheld, he⟩ := completeAcquisition_eq hn hp now principal handles
  obtain ⟨p', hp', hsame⟩ := retains_stored hn q now
  rw [he]
  exact ⟨p', hp', hsame.acquired.trans hacquired, hsame.held.trans hheld⟩

end Hub

/-! ## Courses -/

namespace Station

variable {settings : HubSettings} {directory : Option StateDirectory} {start s : Station}
  {turns : List Turn} {ω : Type} {react : Surroundings ω} {around : ω} {now : Nat}
  {name principal : String} {result : Except RequestError Unit} {r : Run ω}

/-- A user who acquires a place acquires all that it claims, or nothing. The claimed handles are the
published ones that the place matches, in the order of exporter, group, name and class. If the
acquisition succeeds, one command has been sent for each of them, and the place is held with just
these handles. If it fails, the places are the same, and it has been refused before the first
command, or one of the commands has failed; then those in front of it have succeeded and have been
taken back in reverse order, and a confirmed release has left its resource free. A command is sent
just if the exporter is connected in its turn, and fails otherwise. -/
theorem Course.all_or_nothing (h : Station.start settings directory = .ok start)
    (hc : Course start turns s)
    (hr : Run.acquirePlace react now name principal (Run.start s.hub around) = (result, r)) :
    (∀ p, (s.hub.claimed p).Pairwise
        (fun a b => a.path.acquisitionParts < b.path.acquisitionParts) ∧
      ∀ x, x ∈ s.hub.claimed p ↔ x ∈ s.hub.published ∧ p.claims x.path = true) ∧
    (∀ e ∈ s.hub.tried true r.attempts,
      e.2.sent = (e.1.linkOf e.2.handle.path.exporter).isSome ∧
        (e.2.sent = false → e.2.outcome = .failed .unknown)) ∧
    (result = .ok () → ∃ p mid p', s.hub.places.get? name = some p ∧
      Hub.Trials s.hub r.attempts mid ∧ Granted name (s.hub.claimed p) r.attempts ∧
      (∀ a ∈ r.attempts, a.sent = true) ∧
      r.hub = mid.completeAcquisition now name principal (s.hub.claimed p) ∧
      r.hub.places.get? name = some p' ∧ p'.acquired = some principal ∧
      p'.held = s.hub.claimed p) ∧
    ∀ e, result = .error e → r.hub.places = s.hub.places ∧
      (r = Run.start s.hub around ∨
        ∃ p granted failed released cause, s.hub.places.get? name = some p ∧
          e = .exporter failed.handle.path cause ∧ failed.outcome = .failed cause ∧
          r.attempts = granted ++ failed :: released ∧ Hub.Trials s.hub r.attempts r.hub ∧
          RolledBack name (s.hub.claimed p) granted failed released ∧
          Hub.Frees released r.hub) := by
  obtain ⟨hn, hf⟩ := hc.filed h
  refine ⟨fun p => ⟨Hub.pairwise_claimed hf.nodup_published p, fun x => Hub.mem_claimed_iff⟩, ?_⟩
  rcases Run.acquirePlace_cases hr with ⟨e, rfl, rfl⟩ |
    ⟨p, hp, hallowed, ⟨mid, rfl, htrials, hgranted, hhub⟩ |
      ⟨granted, failed, released, cause, rfl, hcause, hl, htrials, hback⟩⟩
  · refine ⟨?_, fun hok => (by cases hok), fun e _ => ⟨rfl, Or.inl rfl⟩⟩
    intro e he
    cases he
  · have hquiet := htrials.exchange.quiet
    have hp₁ : mid.places.get? name = some p := by
      rw [hquiet.places]
      exact hp
    have hempty : p.held = [] :=
      ((hc.soleOwner h).1.free hp (Hub.acquired_of_acquisitionError hallowed)).1
    obtain ⟨p', hp', hacquired, hheld⟩ := Hub.acquired_completeAcquisition
      (hn.of_places hquiet.places) hp₁ now principal (s.hub.claimed p)
    rw [hempty, List.nil_append] at hheld
    refine ⟨fun e he => htrials.sent he, fun _ => ?_, fun e he => (by cases he)⟩
    refine ⟨p, mid, p', hp, htrials, hgranted, ?_, hhub, ?_, hacquired, hheld⟩
    · exact fun a ha => htrials.sent_of_done ha (hgranted.done a ha)
    · rw [hhub]
      exact hp'
  · obtain ⟨done, rest, hfront, _, hasks⟩ := hback.front
    refine ⟨fun e he => htrials.sent he, fun hok => (by cases hok), ?_⟩
    intro e he
    cases he
    refine ⟨htrials.exchange.quiet.places, Or.inr
      ⟨p, granted, failed, released, cause, hp, rfl, hcause, hl, htrials, hback, ?_⟩⟩
    -- what is given back was published when the acquisition began
    have hrow : r.attempts = (granted ++ [failed]) ++ released := by simp [hl]
    rw [hrow] at htrials
    refine htrials.frees hf (fun a ha => (hasks.place_eq ha).2) ?_
    intro a ha
    have hclaimed : a.handle ∈ s.hub.claimed p := by
      rw [hfront]
      exact List.mem_append_left _ (List.mem_reverse.mp (hasks.place_eq ha).1)
    exact hf.ownsRecord (Hub.mem_claimed_iff.mp hclaimed).1

/-- The user of the laboratory with two resources acquires both, while the exporter answers. -/
def acquireBench (answers : List Answer) : Except RequestError Unit × Run (List (List Event)) :=
  Run.acquirePlace scripted 6 "bench" "alice" (Run.start twin.hub
    (answers.map (fun a => [.exporterTakes 0, .exporterTakes 0, .exporterSends 0 (.response a)])))

/-- If both answers are good, the place is held with both resources. If the second one is not, the
first resource is given back, and the places are the same. -/
theorem all_or_nothing_twin :
    (∃ p, (acquireBench [.done, .done]).2.hub.places.get? "bench" = some p ∧
      p.acquired = some "alice" ∧ p.held.map (fun x => x.path.name) = ["relay", "switch"]) ∧
    (acquireBench [.done, .refused "busy", .done]).2.hub.places = twin.hub.places ∧
    (acquireBench [.done, .refused "busy", .done]).2.attempts.map
      (fun a => (a.handle.path.name, a.place, a.outcome)) =
        [("relay", some "bench", .done), ("switch", some "bench", .failed (.rejected "busy")),
          ("relay", none, .done)] := by
  have hstart : Station.start ⟨1000, 1000⟩ none = .ok empty := rfl
  have hcourse := course_play empty twinScenes
  refine ⟨?_, ?_, by decide +kernel⟩
  · have hresult : (acquireBench [.done, .done]).1 = .ok () := by decide +kernel
    obtain ⟨p, _, p', hp, _, _, _, _, hp', hacquired, hheld⟩ := (Course.all_or_nothing hstart
      hcourse (rfl : acquireBench [.done, .done] = (_, _))).2.2.1 hresult
    have hclaimed : (twin.hub.places.get? "bench").map (fun p =>
        (twin.hub.claimed p).map (fun x => x.path.name)) = some ["relay", "switch"] := by
      decide +kernel
    have hp₀ : twin.hub.places.get? "bench" = some p := hp
    rw [hp₀] at hclaimed
    refine ⟨p', hp', hacquired, ?_⟩
    rw [hheld]
    exact Option.some.inj hclaimed
  · have hresult : (acquireBench [.done, .refused "busy", .done]).1 =
        .error (.exporter ⟨"lab", "rack", "PowerPort", "switch"⟩ (.rejected "busy")) := by
      decide +kernel
    exact ((Course.all_or_nothing hstart hcourse
      (rfl : acquireBench [.done, .refused "busy", .done] = (_, _))).2.2.2 _ hresult).1

end Station

end BoardFarm
