import BoardFarm.Proofs.AllOrNothing
import BoardFarm.Proofs.PolledReservations
import BoardFarm.Proofs.ReservedPlaces

/-!
# Overdue reservations

A pass expires what is overdue before it looks which places are held, and it sets no deadline when
the place of a reservation has been released. So two moments decide about a reservation that is in
use: when its place is acquired, the pass behind comes in time or ends the reservation; and when the
place is released, the reservation may be overdue, which only the next pass notices.

* `Hub.state_passed_iff`, `Hub.overdue_passed_iff`: what a pass makes of one reservation.
* `Hub.overdue_advance_iff`, `Hub.expired_schedule_iff`: what is overdue behind a pass, and what the
  next one makes of it.
* `Station.Course.acquire_reserved_iff`: when a reservation outlives the acquisition of its place.
* `Station.Course.overdue_iff`: which reservations are overdue behind a turn.
-/

namespace BoardFarm

namespace Reservation

variable {r : Reservation} {now : Nat}

theorem isOverdue_iff : r.isOverdue now = true ↔ r.timeout < now := by
  simp [isOverdue]

theorem isOverdue_eq_false_iff : r.isOverdue now = false ↔ now ≤ r.timeout := by
  simp [isOverdue]

end Reservation

namespace Hub

/-! ## The steps of a pass -/

section Steps

variable (settings : HubSettings) (places : SortedMap String Place) (now : Nat)
  (assignment : SortedMap String String)

/-- A reservation behind a pass. -/
def passed (r : Reservation) : Reservation :=
  allocate settings now assignment (follow settings places now (expire settings now r))

variable {settings places now assignment} {r : Reservation}

theorem expire_of_timely (h : r.state.expires = true → r.isOverdue now = false) :
    expire settings now r = r := by
  unfold expire
  split
  · rename_i hboth
    rw [Bool.and_eq_true] at hboth
    rw [h hboth.1] at hboth
    cases hboth.2
  · rfl

/-- A reservation with a place that is held follows it. -/
theorem follow_of_held {name : String} {p : Place} (hhas : r.Has name)
    (hp : places.get? name = some p) (hheld : p.acquired.isSome) :
    follow settings places now r =
      { r with state := .acquired }.refresh now settings.reservationTimeout := by
  have hexists : places.contains name = true := SortedMap.contains_eq_true_iff.mpr ⟨p, hp⟩
  have hacquired : isAcquired places name = true := by
    unfold isAcquired
    rw [hp]
    exact hheld
  unfold follow
  simp [hhas.1, hhas.allocatedPlaces, hexists, hacquired]

/-- An overdue reservation that waits or is allocated ends with the pass. -/
theorem state_passed_of_overdue (hexpires : r.state.expires = true)
    (hoverdue : r.isOverdue now = true) :
    (passed settings places now assignment r).state = .expired := by
  have hexpired : (expire settings now r).state = .expired := by
    unfold expire
    rw [hexpires, hoverdue]
    rfl
  have hidle : follow settings places now (expire settings now r) = expire settings now r := by
    unfold follow
    rw [hexpired]
    rfl
  unfold passed
  rw [hidle, allocate_of_ne _ _ _ _ (by rw [hexpired]; decide), hexpired]

/-- A pass expires what waits or is allocated just if it is overdue. -/
theorem state_passed_iff (hexpires : r.state.expires = true) :
    (passed settings places now assignment r).state = .expired ↔ r.isOverdue now = true := by
  refine ⟨fun h => ?_, state_passed_of_overdue hexpires⟩
  by_contra hearly
  unfold passed at h
  rw [expire_of_timely (fun _ => by simpa using hearly)] at h
  rcases allocate_cases settings now assignment (follow settings places now r) with
    he | ⟨_, _, _, _, hstate, _⟩
  · rw [he] at h
    rcases follow_cases settings places now r with ⟨_, hf⟩ | ⟨_, hinvalid | ⟨hplace, _⟩⟩
    · rw [hf] at h
      rw [h] at hexpires
      cases hexpires
    · rw [hinvalid] at h
      cases h
    · rw [h] at hplace
      cases hplace
  · rw [hstate] at h
    cases h

/-- An acquired reservation whose place is released keeps its deadline. -/
theorem passed_of_acquired (hstate : r.state = .acquired)
    (hexpires : (passed settings places now assignment r).state.expires = true) :
    passed settings places now assignment r = { r with state := .allocated } := by
  have htimely : expire settings now r = r := by
    refine expire_of_timely (fun h => ?_)
    rw [hstate] at h
    cases h
  unfold passed at hexpires ⊢
  rw [htimely] at hexpires ⊢
  have hplace : (!r.state.hasPlace) = false := by
    rw [hstate]
    rfl
  unfold follow at hexpires ⊢
  rw [hplace] at hexpires ⊢
  split at hexpires
  · contradiction
  · split at hexpires
    · cases hexpires
    · rename_i hexist
      split at hexpires
      · cases hexpires
      · rename_i hfree
        rw [if_neg Bool.false_ne_true, if_neg hexist, if_neg hfree]
        exact allocate_of_ne _ _ _ _ (fun h => by cases h)

/-- A deadline that has not passed, or is set by a pass, does not pass with it. -/
theorem timely_passed (hcalendar : now ≤ Timestamp.latestMillis) (h : now ≤ r.timeout) :
    now ≤ (passed settings places now assignment r).timeout := by
  have hdeadline : ∀ delay, now ≤ Timestamp.deadline now delay := fun delay =>
    Timestamp.le_deadline (Nat.le_add_right now delay) hcalendar
  have hfollow : now ≤ (follow settings places now r).timeout := by
    unfold follow
    split
    · exact h
    · split
      · exact hdeadline settings.invalidGrace
      · split
        · exact hdeadline settings.reservationTimeout
        · exact h
  unfold passed
  rw [expire_of_timely (fun _ => Reservation.isOverdue_eq_false_iff.mpr h)]
  unfold allocate
  split
  · split
    · exact hfollow
    · exact hdeadline settings.reservationTimeout
  · exact hfollow

/-- What waits or is allocated behind a pass is overdue just if it was acquired and overdue in front
of it. -/
theorem overdue_passed_iff (hcalendar : now ≤ Timestamp.latestMillis)
    (hexpires : (passed settings places now assignment r).state.expires = true) :
    (passed settings places now assignment r).isOverdue now = true ↔
      r.state = .acquired ∧ r.isOverdue now = true := by
  constructor
  · intro hoverdue
    have hended : r.state.isTerminal = false := by
      by_contra h
      have hsame := (proceeds_pass settings places now assignment r).ended (by simpa using h)
      unfold passed at hexpires
      rw [hsame] at hexpires
      exact h (ReservationState.isTerminal_of_expires hexpires)
    by_cases hstate : r.state = .acquired
    · rw [passed_of_acquired hstate hexpires] at hoverdue
      exact ⟨hstate, hoverdue⟩
    · have hbefore : r.state.expires = true := by
        revert hended hstate
        cases r.state <;> decide
      exfalso
      by_cases hlate : r.isOverdue now = true
      · rw [state_passed_of_overdue hbefore hlate] at hexpires
        cases hexpires
      · rw [Reservation.isOverdue_iff, Nat.not_lt] at hlate
        exact absurd (Reservation.isOverdue_iff.mp hoverdue)
          (Nat.not_lt.mpr (timely_passed hcalendar hlate))
  · rintro ⟨hstate, hoverdue⟩
    rw [passed_of_acquired hstate hexpires]
    exact hoverdue

end Steps

/-! ## Passes -/

section Passes

variable {settings : HubSettings} {places : SortedMap String Place} {now : Nat}
  {rs : SortedMap Token Reservation} {hub : Hub} {token : Token} {r r' : Reservation}

theorem exists_passed (hr : hub.reservations.get? token = some r)
    (hlive : r.state.isTerminal = false) (now : Nat) :
    ∃ assignment, (hub.schedule now).reservations.get? token =
      some (passed hub.settings hub.places now assignment r) := by
  obtain ⟨assignment, hget⟩ := get?_advance hub.settings hub.places now hub.reservations
  have hkept : isKept now r = true := by simp [isKept, hlive]
  refine ⟨assignment, ?_⟩
  rw [reservations_schedule, hget, hr, Option.filter_some, hkept]
  rfl

theorem passed_of_get? (hr' : (advance settings places now rs).get? token = some r') :
    ∃ assignment r, rs.get? token = some r ∧ passed settings places now assignment r = r' := by
  obtain ⟨assignment, hget⟩ := get?_advance settings places now rs
  rw [hget] at hr'
  obtain ⟨r, hr, he⟩ := Option.map_eq_some_iff.mp hr'
  exact ⟨assignment, r, (Option.filter_eq_some_iff.mp hr).1, he⟩

/-- What waits or is allocated behind a pass is overdue just if it comes to the pass acquired and
overdue; only its state has changed then. -/
theorem overdue_advance_iff (hcalendar : now ≤ Timestamp.latestMillis)
    (hr' : (advance settings places now rs).get? token = some r')
    (hexpires : r'.state.expires = true) :
    r'.isOverdue now = true ↔ ∃ r, rs.get? token = some r ∧ r.state = .acquired ∧
      r.isOverdue now = true ∧ r' = { r with state := .allocated } := by
  obtain ⟨assignment, r, hr, rfl⟩ := passed_of_get? hr'
  constructor
  · intro hoverdue
    obtain ⟨hstate, hlate⟩ := (overdue_passed_iff hcalendar hexpires).mp hoverdue
    exact ⟨r, hr, hstate, hlate, passed_of_acquired hstate hexpires⟩
  · rintro ⟨r₀, _, _, hlate, he⟩
    rw [he]
    exact hlate

/-- A pass expires what waits or is allocated just if it is overdue. -/
theorem expired_schedule_iff (hr : hub.reservations.get? token = some r)
    (hexpires : r.state.expires = true) (now : Nat) :
    ∃ r', (hub.schedule now).reservations.get? token = some r' ∧
      (r'.state = .expired ↔ r.isOverdue now = true) := by
  obtain ⟨assignment, hget⟩ :=
    exists_passed hr (ReservationState.isTerminal_of_expires hexpires) now
  exact ⟨_, hget, state_passed_iff hexpires⟩

/-- A pass that finds an allocated reservation with a place that is held makes it acquired, or
expires it and takes the place from it. -/
theorem schedule_of_held (hn : hub.Named) (hplan : Planned hub.reservations)
    (hr : hub.reservations.get? token = some r) (hstate : r.state = .allocated) {name : String}
    (hhas : r.Has name) {p : Place} (hp : hub.places.get? name = some p)
    (hheld : p.acquired.isSome) (now : Nat) :
    ∃ r' p', (hub.schedule now).reservations.get? token = some r' ∧
      (hub.schedule now).places.get? name = some p' ∧ p'.acquired = p.acquired ∧
      (now ≤ r.timeout → r'.state = .acquired ∧ p'.reservation = some token) ∧
      (r.timeout < now → r'.state = .expired ∧ p'.reservation = none) := by
  have hexpires : r.state.expires = true := by
    rw [hstate]
    rfl
  obtain ⟨assignment, hget⟩ :=
    exists_passed hr (ReservationState.isTerminal_of_expires hexpires) now
  have hlinked := linked_schedule hn hplan now
  obtain ⟨p', hp', hsame⟩ : ∃ p', (hub.schedule now).places.get? name = some p' ∧
      p'.acquired = p.acquired := by
    rw [places_schedule hn]
    exact ⟨_, SortedMap.get?_mapValues_eq_some_iff.mpr ⟨p, hp, rfl⟩, (relink_spec now _ p).2⟩
  refine ⟨_, p', hget, hp', hsame, fun htimely => ?_, fun hlate => ?_⟩
  · have hpassed : passed hub.settings hub.places now assignment r =
        { r with state := .acquired }.refresh now hub.settings.reservationTimeout := by
      unfold passed
      rw [expire_of_timely (fun _ => Reservation.isOverdue_eq_false_iff.mpr htimely),
        follow_of_held hhas hp hheld]
      exact allocate_of_ne _ _ _ _ (fun h => by cases h)
    rw [hpassed] at hget ⊢
    exact ⟨rfl, (hlinked.link hp').mpr ⟨_, hget, rfl, hhas.2⟩⟩
  · have hended : (passed hub.settings hub.places now assignment r).state = .expired :=
      state_passed_of_overdue hexpires (Reservation.isOverdue_iff.mpr hlate)
    refine ⟨hended, Option.eq_none_iff_forall_ne_some.mpr (fun u hu => ?_)⟩
    -- a reservation with the held place has had it in front of the pass
    obtain ⟨q, hq, hhas'⟩ := (hlinked.link hp').mp hu
    have hq' := hq
    rw [reservations_schedule] at hq'
    have hold : ∃ q₀, hub.reservations.get? u = some q₀ ∧ q₀.Has name := by
      by_contra hnew
      obtain ⟨p₀, hp₀, hfree⟩ := free_of_given hn hplan hq' hhas'
        (fun q₀ hq₀ hhas₀ => hnew ⟨q₀, hq₀, hhas₀⟩)
      rw [hp] at hp₀
      cases hp₀
      rw [hfree] at hheld
      cases hheld
    obtain ⟨q₀, hq₀, hhas₀⟩ := hold
    obtain rfl := hplan.apart hq₀ hr hhas₀ hhas
    rw [hget] at hq
    cases hq
    have hplace := hhas'.1
    rw [hended] at hplace
    cases hplace

end Passes

end Hub

/-! ## Courses -/

namespace Station

variable {settings : HubSettings} {directory : Option StateDirectory} {start s t : Station}
  {turns : List Turn} {turn : Turn} {token : Token}

/-- A user acquires a place that is allocated to a reservation of the same user. If the deadline of
the reservation has not passed by then, the reservation is acquired and the place keeps it.
Otherwise the pass behind the acquisition expires it, and the user holds the place without a
reservation. -/
theorem Course.acquire_reserved_iff {ω : Type} {react : Surroundings ω} {around : ω} {now : Nat}
    {name : String} {r : Reservation} {run : Run ω}
    (h : Station.start settings directory = .ok start) (hc : Course start turns s)
    (hr : s.hub.reservations.get? token = some r) (hstate : r.state = .allocated)
    (hname : name ∈ r.allocatedPlaces)
    (hrun : Run.acquirePlace react now name r.owner (Run.start s.hub around) = (.ok (), run)) :
    ∃ r' p', run.hub.reservations.get? token = some r' ∧ run.hub.places.get? name = some p' ∧
      p'.acquired = some r.owner ∧
      (r'.state = .acquired ∧ p'.reservation = some token ↔ now ≤ r.timeout) ∧
      (r.timeout < now → r'.state = .expired ∧ p'.reservation = none) := by
  obtain ⟨hn, _⟩ := hc.filed h
  have hplan := (hc.linked h).fits.toPlanned
  have hhas : r.Has name := (hplan.formed hr).has_of_mem (by rw [hstate]; rfl) hname
  rcases Run.acquirePlace_cases hrun with ⟨e, he, _⟩ |
    ⟨p, hp, _, ⟨mid, _, htrials, _, hhub⟩ | ⟨_, _, _, _, he, _⟩⟩
  · cases he
  · have hquiet := htrials.exchange.quiet
    have hnamed : mid.Named := hn.of_places hquiet.places
    have hp₁ : mid.places.get? name = some p := by
      rw [hquiet.places]
      exact hp
    obtain ⟨q, hqname, hqheld, _, he⟩ :=
      Hub.completeAcquisition_eq hnamed hp₁ now r.owner (s.hub.claimed p)
    have hstored : (mid.storePlace q).markDirty.places.get? name = some q := by
      rw [← hqname]
      exact (SortedMap.get?_insert ..).trans (if_pos rfl)
    have hsame : (mid.storePlace q).markDirty.reservations = s.hub.reservations :=
      hquiet.reservations
    obtain ⟨r', p', hr', hp', hacquired, htimely, hlate⟩ := Hub.schedule_of_held
      (Hub.Writes.named (Hub.writes_markDirty (.single (.store q))) hnamed) (hsame ▸ hplan)
      (hsame ▸ hr) hstate hhas hstored (by rw [hqheld]; rfl) now
    rw [hhub, he]
    refine ⟨r', p', hr', hp', hacquired.trans hqheld, ⟨fun hkept => ?_, htimely⟩, hlate⟩
    by_contra hpast
    rw [(hlate (by omega)).1] at hkept
    cases hkept.1
  · cases he

/-- The owner of the reservation acquires the board, and the exporter answers. -/
def acquireBoard (now : Nat) : Except RequestError Unit × Run (List (List Event)) :=
  Run.acquirePlace scripted now "board" "alice" (Run.start reserved.hub
    [[.exporterTakes 0, .exporterTakes 0, .exporterSends 0 (labReport "board"),
      .exporterSends 0 (.response Answer.done)]])

/-- In time, the reservation is acquired with the board. -/
theorem acquire_reserved_lab :
    (acquireBoard 7).1 = .ok () ∧
      ∃ r p, (acquireBoard 7).2.hub.reservations.get? (Identifier.ofNat .reservation 3) = some r ∧
        (acquireBoard 7).2.hub.places.get? "board" = some p ∧ r.state = .acquired ∧
        p.reservation = some (Identifier.ofNat .reservation 3) := by
  have hstart : Station.start ⟨1000, 1000⟩ none = .ok empty := rfl
  have hbooked : (reserved.hub.reservations.get? (Identifier.ofNat .reservation 3)).map
      (fun r => (r.owner, r.state, r.allocatedPlaces, r.timeout)) =
        some ("alice", .allocated, ["board"], 1006) := by decide +kernel
  obtain ⟨r, hr, hall⟩ := Option.map_eq_some_iff.mp hbooked
  simp only [Prod.mk.injEq] at hall
  obtain ⟨howner, hstate, hplaces, htimeout⟩ := hall
  have hdone : (acquireBoard 7).1 = .ok () := by decide +kernel
  have hrun : Run.acquirePlace scripted 7 "board" r.owner (Run.start reserved.hub
      [[.exporterTakes 0, .exporterTakes 0, .exporterSends 0 (labReport "board"),
        .exporterSends 0 (.response Answer.done)]]) = (.ok (), (acquireBoard 7).2) := by
    rw [howner]
    exact Prod.ext hdone rfl
  obtain ⟨r', p', hr', hp', _, hkept, _⟩ := Course.acquire_reserved_iff hstart
    (course_play empty (labScenes.take 9)) hr hstate (by simp [hplaces]) hrun
  obtain ⟨hacquired, hsame⟩ := hkept.mpr (by rw [htimeout]; decide)
  exact ⟨hdone, r', p', hr', hp', hacquired, hsame⟩

/-- Behind the deadline, the board is acquired and the reservation is lost. -/
theorem late_acquisition :
    Course empty (empty.play (labScenes.take 9)).1 reserved ∧
      (reserved.hub.reservations.get? (Identifier.ofNat .reservation 3)).map
        (fun r => (r.owner, r.state, r.allocatedPlaces)) =
          some ("alice", .allocated, ["board"]) ∧
      (acquireBoard 2000).1 = .ok () ∧
      ((acquireBoard 2000).2.hub.reservations.get? (Identifier.ofNat .reservation 3)).map
        Reservation.state = some .expired ∧
      ((acquireBoard 2000).2.hub.places.get? "board").map
        (fun p => (p.acquired, p.reservation)) = some (some "alice", none) :=
  ⟨course_play empty (labScenes.take 9), by decide +kernel, by decide +kernel, by decide +kernel,
    by decide +kernel⟩

/-- The deadline of an acquired reservation has passed when a turn releases its place. -/
inductive Lapses (s t : Station) (now : Nat) (token : Token) : Reservation → Prop
  | release {r : Reservation} {name : String} {p p' : Place}
      (hr : s.hub.reservations.get? token = some r) (hhas : r.Has name)
      (hstate : r.state = .acquired) (hoverdue : r.isOverdue now = true)
      (hp : s.hub.places.get? name = some p) (hheld : p.acquired.isSome)
      (hp' : t.hub.places.get? name = some p') (hfree : p'.acquired = none) :
      Lapses s t now token { r with state := .allocated }

theorem Step.lapses (hs : Step s turn t) (hn : s.hub.Named) (hf : s.hub.Filed)
    (hl : s.hub.Linked) (hl' : t.hub.Linked) (hcalendar : turn.now ≤ Timestamp.latestMillis)
    {r' : Reservation} (hr' : t.hub.reservations.get? token = some r')
    (hexpires : r'.state.expires = true) (hoverdue : r'.isOverdue turn.now = true) :
    s.hub.reservations.get? token = some r' ∨ Lapses s t turn.now token r' := by
  have hpass : ∀ {places : SortedMap String Place} {rs : SortedMap Token Reservation},
      (Hub.advance s.hub.settings places turn.now rs).get? token = some r' →
      (∀ r, rs.get? token = some r → r.state = .acquired →
        s.hub.reservations.get? token = some r) → Lapses s t turn.now token r' := by
    intro places rs hget hold
    obtain ⟨r, hr, hstate, hlate, rfl⟩ :=
      (Hub.overdue_advance_iff hcalendar hget hexpires).mp hoverdue
    have hr₀ := hold r hr hstate
    obtain ⟨name, hhas⟩ := (hl.fits.formed hr₀).exists_has (by rw [hstate]; rfl)
    obtain ⟨p, hp, hheld⟩ := hl.fits.suits hr₀ hhas
    obtain ⟨p', hp', hfree⟩ := hl'.fits.suits hr' ⟨rfl, hhas.2⟩
    refine .release hr₀ hhas hstate hlate hp (hheld.mp hstate) hp' ?_
    by_contra hne
    cases hfree.mpr (Option.isSome_iff_ne_none.mpr hne)
  rcases hs.rebooking hn hf with ⟨op, _, hb⟩ | ⟨_, hsame⟩
  · generalize hrs : t.hub.reservations = rs at hb hr'
    cases hb with
    | keep => exact Or.inl hr'
    | pass places => exact Or.inr (hpass hr' (fun r hr _ => hr))
    | reserve _ owner places =>
      refine Or.inr (hpass hr' (fun r hr hstate => ?_))
      rcases SortedMap.get?_insert_eq_some_iff.mp hr with ⟨_, rfl⟩ | ⟨_, hold⟩
      · cases hstate
      · exact hold
    | cancel _ _ places =>
      exact Or.inr (hpass hr' (fun r hr _ => (SortedMap.get?_erase_eq_some_iff.mp hr).2))
    | poll hr hlive =>
      rcases SortedMap.get?_insert_eq_some_iff.mp hr' with ⟨_, rfl⟩ | ⟨_, hold⟩
      · have hdeadline : turn.now ≤
            Timestamp.deadline turn.now s.hub.settings.reservationTimeout :=
          Timestamp.le_deadline (Nat.le_add_right ..) hcalendar
        exact absurd (Reservation.isOverdue_iff.mp hoverdue) (Nat.not_lt.mpr hdeadline)
      · exact Or.inl hold
  · rw [hsame] at hr'
    exact Or.inl hr'

theorem Step.hub_eq_schedule (hs : Step s turn t) (hop : turn.operation = some .schedule) :
    t.hub = s.hub.schedule turn.now := by
  cases hs with
  | operate react around now op =>
    cases hop
    rfl
  | save now => cases hop
  | saveIfDirty now => cases hop

/-- A pass by itself finds the places of acquired reservations held and leaves nothing overdue. -/
theorem Step.timely_schedule (hs : Step s turn t) (hn : s.hub.Named) (hf : s.hub.Filed)
    (hl : s.hub.Linked) (hl' : t.hub.Linked) (hcalendar : turn.now ≤ Timestamp.latestMillis)
    (hop : turn.operation = some .schedule) {r' : Reservation}
    (hr' : t.hub.reservations.get? token = some r') (hexpires : r'.state.expires = true) :
    r'.isOverdue turn.now = false := by
  by_contra hnot
  have hoverdue : r'.isOverdue turn.now = true := by simpa using hnot
  have hhub := hs.hub_eq_schedule hop
  rcases hs.lapses hn hf hl hl' hcalendar hr' hexpires hoverdue with hold | hlapse
  · obtain ⟨r'', hr'', hended⟩ := Hub.expired_schedule_iff hold hexpires turn.now
    rw [← hhub, hr'] at hr''
    cases hr''
    rw [hended.mpr hoverdue] at hexpires
    cases hexpires
  · cases hlapse with
    | release _ _ _ _ hp hheld hp' hfree =>
      rw [hhub, Hub.places_schedule hn] at hp'
      obtain ⟨q, hq, rfl⟩ := SortedMap.get?_mapValues_eq_some_iff.mp hp'
      rw [hp] at hq
      cases hq
      rw [(Hub.relink_spec _ _ _).2] at hfree
      rw [hfree] at hheld
      cases hheld

/-- Let a turn be at a moment on the calendar. What waits or is allocated behind a pass at this
moment is overdue just if it comes to the pass acquired and overdue, and a second pass at once
expires just what is overdue. What is overdue behind the turn was overdue in front of it, and the
turn has left it alone; or the turn has released the place of an acquired reservation whose deadline
had passed. A pass by itself leaves nothing overdue. -/
theorem Course.overdue_iff (h : Station.start settings directory = .ok start)
    (hc : Course start turns s) (hs : Step s turn t)
    (hcalendar : turn.now ≤ Timestamp.latestMillis) :
    (∀ {hub : Hub} {token : Token} {r' : Reservation},
      (hub.schedule turn.now).reservations.get? token = some r' → r'.state.expires = true →
      (r'.isOverdue turn.now = true ↔ ∃ r, hub.reservations.get? token = some r ∧
        r.state = .acquired ∧ r.isOverdue turn.now = true ∧ r' = { r with state := .allocated }) ∧
      ∃ r'', ((hub.schedule turn.now).schedule turn.now).reservations.get? token = some r'' ∧
        (r''.state = .expired ↔ r'.isOverdue turn.now = true)) ∧
    ∀ {token : Token} {r' : Reservation}, t.hub.reservations.get? token = some r' →
      r'.state.expires = true →
      (r'.isOverdue turn.now = true ↔
        s.hub.reservations.get? token = some r' ∧ r'.isOverdue turn.now = true ∨
          Lapses s t turn.now token r') ∧
      (turn.operation = some .schedule → r'.isOverdue turn.now = false) := by
  obtain ⟨hn, hf⟩ := hc.filed h
  have hl := hc.linked h
  have hl' := (hc.step hs).linked h
  refine ⟨fun hr' hexpires => ⟨?_, Hub.expired_schedule_iff hr' hexpires turn.now⟩,
    fun hr' hexpires => ⟨⟨fun hoverdue => ?_, ?_⟩, fun hop => ?_⟩⟩
  · rw [Hub.reservations_schedule] at hr'
    exact Hub.overdue_advance_iff hcalendar hr' hexpires
  · exact (hs.lapses hn hf hl hl' hcalendar hr' hexpires hoverdue).imp_left
      (fun hold => ⟨hold, hoverdue⟩)
  · rintro (⟨_, hoverdue⟩ | hlapse)
    · exact hoverdue
    · cases hlapse with
      | release _ _ _ hoverdue _ _ _ _ => exact hoverdue
  · exact hs.timely_schedule hn hf hl hl' hcalendar hop hr' hexpires

/-- A long time after the board has been acquired, it is released. -/
def releaseBoard : Operation :=
  .request (Identifier.ofNat .reservation 5) none (.release "board" none)

/-- The release of the board, which the exporter confirms. -/
def lateRun : Run (List (List Event)) :=
  lab.operate scripted [[.exporterTakes 0, .exporterSends 0 (.response Answer.done)]] 2000
    releaseBoard

/-- The small laboratory behind the release. -/
def lapsed : Station := { lab with hub := lateRun.hub }

/-- The reservation of the board had passed its deadline before the release, and a pass by itself
would have left it acquired. -/
theorem overdue_iff_lab :
    (∃ r, lapsed.hub.reservations.get? (Identifier.ofNat .reservation 3) = some r ∧
      Lapses lab lapsed 2000 (Identifier.ofNat .reservation 3) r) ∧
    ∀ token r, (lab.hub.schedule 2000).reservations.get? token = some r →
      r.state.expires = true → r.isOverdue 2000 = false := by
  have hstart : Station.start ⟨1000, 1000⟩ none = .ok empty := rfl
  have hcourse := course_play empty labScenes
  have hcalendar : 2000 ≤ Timestamp.latestMillis := by decide
  constructor
  · have hlate : (lapsed.hub.reservations.get? (Identifier.ofNat .reservation 3)).map
        (fun r => (r.state, r.isOverdue 2000)) = some (.allocated, true) := by decide +kernel
    obtain ⟨r, hr, hboth⟩ := Option.map_eq_some_iff.mp hlate
    obtain ⟨hstate, hoverdue⟩ := Prod.mk.inj hboth
    have hbefore : (lab.hub.reservations.get? (Identifier.ofNat .reservation 3)).map
        Reservation.state = some .acquired := by decide +kernel
    have hstep : Step lab ⟨2000, some releaseBoard, lateRun.attempts⟩ lapsed := .operate ..
    rcases ((Course.overdue_iff hstart hcourse hstep hcalendar).2 hr
      (by rw [hstate]; rfl)).1.mp hoverdue with ⟨hold, _⟩ | hlapse
    · have hold' : lab.hub.reservations.get? (Identifier.ofNat .reservation 3) = some r := hold
      rw [hold', Option.map_some, hstate] at hbefore
      cases hbefore
    · exact ⟨r, hr, hlapse⟩
  · intro token r hr hexpires
    have hstep : Step lab ⟨2000, some .schedule, (lab.operate scripted [] 2000 .schedule).attempts⟩
        { lab with hub := lab.hub.schedule 2000 } := .operate scripted [] 2000 .schedule
    exact ((Course.overdue_iff hstart hcourse hstep hcalendar).2 hr hexpires).2 rfl

/-- The pass of a release may leave a reservation overdue, which another pass at once expires. -/
theorem late_release :
    Course empty (empty.play labScenes).1 lab ∧
      Step lab ⟨2000, some releaseBoard, lateRun.attempts⟩ lapsed ∧
      (lapsed.hub.reservations.get? (Identifier.ofNat .reservation 3)).map
        (fun r => (r.state, r.isOverdue 2000)) = some (.allocated, true) ∧
      ((lapsed.hub.schedule 2000).reservations.get? (Identifier.ofNat .reservation 3)).map
        Reservation.state = some .expired :=
  ⟨course_play empty labScenes, .operate .., by decide +kernel, by decide +kernel⟩

end Station

end BoardFarm
