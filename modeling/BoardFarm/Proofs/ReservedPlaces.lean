import BoardFarm.Proofs.FairAllocation
import BoardFarm.Proofs.SingleOwner

/-!
# Reserved places

A place that is held and reserved is held by the owner of its reservation. Two moments decide
about it: when a place is acquired, the reservation that has it is looked at, and when a pass
gives a place to a reservation, the place is free. Whatever else happens changes neither the
holder of a place nor the owner of a reservation.

* `Hub.Entitled`: who holds a place that a reservation has.
* `Hub.entitled_schedule`, `Hub.Move.entitled`: passes and moves keep it.
* `Station.Course.held_by_owner`: throughout a course, and what it means for other users.
-/

namespace BoardFarm

namespace Hub

/-- A place that a reservation has is held by the owner of the reservation or by nobody. -/
def Entitled (places : SortedMap String Place) (rs : SortedMap Token Reservation) : Prop :=
  ∀ ⦃t : Token⦄ ⦃r : Reservation⦄ ⦃name : String⦄ ⦃p : Place⦄ ⦃user : String⦄,
    rs.get? t = some r → r.Has name → places.get? name = some p → p.acquired = some user →
      r.owner = user

variable {places : SortedMap String Place} {rs : SortedMap Token Reservation}

/-! ## Passes -/

theorem owner_expire (settings : HubSettings) (now : Nat) (r : Reservation) :
    (expire settings now r).owner = r.owner := by
  unfold expire
  split <;> rfl

theorem owner_follow (settings : HubSettings) (places : SortedMap String Place) (now : Nat)
    (r : Reservation) : (follow settings places now r).owner = r.owner := by
  unfold follow
  split
  · rfl
  · split
    · rfl
    · split <;> rfl

theorem owner_allocate (settings : HubSettings) (now : Nat)
    (assignment : SortedMap String String) (r : Reservation) :
    (allocate settings now assignment r).owner = r.owner := by
  unfold allocate
  split
  · split <;> rfl
  · rfl

theorem owner_of_advance {settings : HubSettings} {now : Nat} {t : Token} {r' : Reservation}
    (hr' : (advance settings places now rs).get? t = some r') :
    ∃ r, rs.get? t = some r ∧ r'.owner = r.owner := by
  obtain ⟨assignment, hget⟩ := get?_advance settings places now rs
  rw [hget] at hr'
  obtain ⟨r, hr, rfl⟩ := Option.map_eq_some_iff.mp hr'
  refine ⟨r, (Option.filter_eq_some_iff.mp hr).1, ?_⟩
  rw [owner_allocate, owner_follow, owner_expire]

variable {o : Occasion} {hub hub' : Hub}

/-- A reservation that gets a place gets a free one. -/
theorem entitled_schedule (hn : hub.Named) (h : Planned hub.reservations)
    (he : Entitled hub.places hub.reservations) (now : Nat) :
    Entitled (hub.schedule now).places (hub.schedule now).reservations := by
  intro t r' name p' user hr' hhas hp' hheld
  rw [reservations_schedule] at hr'
  rw [places_schedule hn] at hp'
  obtain ⟨p, hp, rfl⟩ := SortedMap.get?_mapValues_eq_some_iff.mp hp'
  rw [(relink_spec now _ p).2] at hheld
  obtain ⟨r, hr, howner⟩ := owner_of_advance hr'
  by_cases hold : r.Has name
  · rw [howner]
    exact he hr hold hp hheld
  · have hnew : ∀ q, hub.reservations.get? t = some q → ¬ q.Has name := by
      intro q hq
      rw [hr] at hq
      cases hq
      exact hold
    obtain ⟨p₀, hp₀, hfree⟩ := free_of_given hn h hr' hhas hnew
    rw [hp] at hp₀
    cases hp₀
    rw [hfree] at hheld
    cases hheld

/-! ## Moves -/

theorem Entitled.insert (h : Entitled places rs) {name : String} {q : Place}
    (hq : ∀ t r user, rs.get? t = some r → r.Has name → q.acquired = some user → r.owner = user) :
    Entitled (places.insert name q) rs := by
  intro t r k p user hr hhas hp hheld
  rcases SortedMap.get?_insert_eq_some_iff.mp hp with ⟨rfl, rfl⟩ | ⟨_, hold⟩
  · exact hq t r user hr hhas hheld
  · exact h hr hhas hold hheld

/-- Reservations that have come without a place, or have kept owner and place. -/
theorem Entitled.rebook (h : Entitled places rs) {rs' : SortedMap Token Reservation}
    (hrs : ∀ t r' name, rs'.get? t = some r' → r'.Has name →
      ∃ r, rs.get? t = some r ∧ r.Has name ∧ r'.owner = r.owner) : Entitled places rs' := by
  intro t r' name p user hr' hhas hp hheld
  obtain ⟨r, hr, hhas₀, howner⟩ := hrs t r' name hr' hhas
  rw [howner]
  exact h hr hhas₀ hp hheld

/-- Nobody may acquire a place that somebody else has reserved. -/
theorem owner_of_acquisitionError (hl : hub.Linked) {name principal : String} {p : Place}
    (hp : hub.places.get? name = some p) (h : Run.acquisitionError hub p principal = none)
    {t : Token} {r : Reservation} (hr : hub.reservations.get? t = some r) (hhas : r.Has name) :
    r.owner = principal := by
  have hreserved : p.reservation = some t := (hl.link hp).mpr ⟨r, hr, hhas⟩
  unfold Run.acquisitionError at h
  rw [acquired_of_acquisitionError h, hreserved, Option.bind_some, hr] at h
  by_contra hne
  simp [hne] at h

theorem Move.entitled (hn : hub.Named) (hl : hub.Linked)
    (h : Entitled hub.places hub.reservations) (hm : Move o hub hub') :
    Entitled hub'.places hub'.reservations := by
  have hplan := hl.fits.toPlanned
  -- a place that is stored may be held by the owner of its reservation
  have hstored : ∀ q : Place, (∀ t r user, hub.reservations.get? t = some r → r.Has q.name →
      q.acquired = some user → r.owner = user) →
      Entitled (((hub.storePlace q).markDirty).schedule o.now).places
        (((hub.storePlace q).markDirty).schedule o.now).reservations := by
    intro q hq
    have hw : Writes hub (hub.storePlace q).markDirty := writes_markDirty (.single (.store q))
    exact entitled_schedule (hw.named hn) hplan (h.insert hq) o.now
  have hsame : ∀ {name : String} {p q : Place}, hub.places.get? name = some p → q.name = p.name →
      q.acquired = p.acquired → ∀ t r user, hub.reservations.get? t = some r → r.Has q.name →
        q.acquired = some user → r.owner = user := by
    intro name p q hp hname hacquired t r user hr hhas hheld
    rw [hname, hn name p hp] at hhas
    rw [hacquired] at hheld
    exact h hr hhas hp hheld
  have hplanned : ∀ rs, Planned rs → Entitled hub.places rs →
      Entitled ({ hub with reservations := rs }.schedule o.now).places
        ({ hub with reservations := rs }.schedule o.now).reservations := by
    intro rs hrs he
    have hmid : Named { hub with reservations := rs } := hn
    exact entitled_schedule hmid hrs he o.now
  cases hm with
  | @edit name p p' hp he =>
    exact h.insert (hsame (q := p'.touch o.now) hp he.name he.keeps.2.2)
  | @retag name p tags hp _ _ => exact hstored _ (hsame hp rfl rfl)
  | add _ _ => exact hstored _ (fun t r user _ _ hheld => by cases hheld)
  | addDefault => exact hstored _ (fun t r user _ _ hheld => by cases hheld)
  | delete name =>
    have hw : Write hub _ := .erase name
    have he : Entitled (hub.places.erase name) hub.reservations := by
      intro t r k p user hr hhas hp hheld
      exact h hr hhas (SortedMap.get?_erase_eq_some_iff.mp hp).2 hheld
    exact entitled_schedule (Writes.named (writes_markDirty (.single hw)) hn) hplan he o.now
  | @acquire name p principal handles hp hallowed _ _ _ =>
    unfold completeAcquisition
    rw [hp]
    refine hstored _ ?_
    intro t r user hr hhas hheld
    have hhas' : r.Has p.name := hhas
    rw [hn name p hp] at hhas'
    cases hheld
    exact owner_of_acquisitionError hl hp hallowed hr hhas'
  | release hp =>
    unfold completeRelease
    rw [hp]
    exact hstored _ (fun t r user _ _ hheld => by cases hheld)
  | attach hp =>
    unfold Hub.attach
    rw [hp]
    exact h.insert (hsame hp rfl rfl)
  | replace hr _ =>
    obtain ⟨p, old, hp, _, rfl⟩ := replaceHeld_eq_some hr
    exact h.insert (hsame hp rfl rfl)
  | republish handle =>
    obtain ⟨clients, he⟩ := publishHolders_eq hub handle
    rw [he]
    exact h
  | @reserve token address filters prio _ owner =>
    refine hplanned _ (hplan.insert_waiting token rfl rfl rfl) (h.rebook ?_)
    intro t r' name hr' hhas
    rcases SortedMap.get?_insert_eq_some_iff.mp hr' with ⟨_, rfl⟩ | ⟨_, hold⟩
    · cases hhas.1
    · exact ⟨r', hold, hhas, rfl⟩
  | cancel =>
    refine hplanned _ (hplan.filter _) (h.rebook ?_)
    exact fun t r' name hr' hhas =>
      ⟨r', (SortedMap.get?_erase_eq_some_iff.mp hr').2, hhas, rfl⟩
  | @poll token r hr _ =>
    refine h.rebook ?_
    intro t r' name hr' hhas
    rcases SortedMap.get?_insert_eq_some_iff.mp hr' with ⟨ht, rfl⟩ | ⟨_, hold⟩
    · rw [hl.fits.keyed hr] at ht
      subst ht
      exact ⟨r, hr, hhas, rfl⟩
    · exact ⟨r', hold, hhas, rfl⟩
  | schedule => exact entitled_schedule hn hplan h o.now
  | subscribe id enable => exact h
  | retries b => exact h

end Hub

/-! ## Courses -/

namespace Run

variable {ω : Type}

/-- A request to acquire a place for another user than the one who has reserved it is refused
before any command is tried, and changes nothing. -/
theorem acquirePlace_reserved (react : Surroundings ω) (now : Nat) {name user : String}
    {hub : Hub} (around : ω) {p : Place} {t : Token} {r : Reservation}
    (hp : hub.places.get? name = some p) (hreserved : p.reservation = some t)
    (hr : hub.reservations.get? t = some r) (hne : r.owner ≠ user) :
    ∃ e, acquirePlace react now name user (start hub around) = (.error e, start hub around) := by
  have hstart : (start hub around).hub = hub := rfl
  have herror : ∃ e, acquisitionError hub p user = some e := by
    unfold acquisitionError
    cases p.acquired with
    | some owner => exact ⟨_, rfl⟩
    | none =>
      rw [hreserved, Option.bind_some, hr]
      exact ⟨_, if_neg hne⟩
  obtain ⟨e, he⟩ := herror
  refine ⟨e, ?_⟩
  unfold acquirePlace
  rw [hstart, hp]
  dsimp only
  rw [he]

end Run

namespace Station

variable {settings : HubSettings} {directory : Option StateDirectory} {start s : Station}
  {turns : List Turn}

theorem entitled_start (h : Station.start settings directory = .ok start) :
    Hub.Entitled start.hub.places start.hub.reservations := by
  obtain ⟨places, hhub, _⟩ := start_ok h
  rw [hhub]
  intro t r name p user hr
  cases hr

theorem Course.entitled (h : Station.start settings directory = .ok start)
    (hc : Course start turns s) :
    (s.hub.Linked ∧ Hub.Entitled s.hub.places s.hub.reservations) ∧
      ∀ turn ∈ turns, ∀ a ∈ turn.attempts,
        a.hub.Linked ∧ Hub.Entitled a.hub.places a.hub.reservations :=
  hc.kept (P := fun hub => hub.Linked ∧ Hub.Entitled hub.places hub.reservations) h
    ⟨linked_start h, entitled_start h⟩
    (fun hq hl => ⟨hl.1.of_quiet hq, by rw [hq.places, hq.reservations]; exact hl.2⟩)
    (fun hn hl hm => ⟨hm.linked hn hl.1, hm.entitled hn hl.1 hl.2⟩)

/-- Throughout a course, and whenever the outcome of a command becomes known: the reservation of
a place exists; if the place is held, then by the owner of the reservation; and a request of any
other user to acquire the place is refused, without a command and without a change. -/
theorem Course.held_by_owner (h : Station.start settings directory = .ok start)
    (hc : Course start turns s) (hub : Hub)
    (hreached : hub = s.hub ∨ ∃ turn ∈ turns, ∃ a ∈ turn.attempts, hub = a.hub)
    (name : String) (p : Place) (t : Token) (hp : hub.places.get? name = some p)
    (hreserved : p.reservation = some t) :
    ∃ r, hub.reservations.get? t = some r ∧
      (∀ user, p.acquired = some user → r.owner = user) ∧
      ∀ user, user ≠ r.owner →
        ∀ {ω : Type} (react : Surroundings ω) (now : Nat) (around : ω),
          (∃ e, Run.acquirePlace react now name user (Run.start hub around) =
            (.error e, Run.start hub around)) ∧
          ∀ token address, hub.principalAt address = .ok user →
            ∃ e, (Run.start hub around).serve react now token address (.acquire name) =
              (.error e, Run.start hub around) := by
  have hkept : hub.Linked ∧ Hub.Entitled hub.places hub.reservations := by
    rcases hreached with rfl | ⟨turn, hturn, a, ha, rfl⟩
    · exact (hc.entitled h).1
    · exact (hc.entitled h).2 turn hturn a ha
  obtain ⟨hlinked, hentitled⟩ := hkept
  obtain ⟨r, hr, hhas⟩ := (hlinked.link hp).mp hreserved
  refine ⟨r, hr, fun user hheld => hentitled hr hhas hp hheld, ?_⟩
  intro user hne ω react now around
  obtain ⟨e, he⟩ := Run.acquirePlace_reserved react now around hp hreserved hr (Ne.symm hne)
  refine ⟨⟨e, he⟩, ?_⟩
  intro token address hprincipal
  refine ⟨e, ?_⟩
  have hstart : (Run.start hub around).hub = hub := rfl
  unfold Run.serve Run.withPrincipal
  dsimp only
  rw [hstart, hprincipal]
  dsimp only
  rw [he]
  rfl

/-- In the small laboratory the board is held by the owner of its reservation. After its release it
waits for the next reservation, and another user is refused. -/
theorem held_by_owner_lab :
    (∃ p r, lab.hub.places.get? "board" = some p ∧ p.acquired = some "alice" ∧
      lab.hub.reservations.get? (Identifier.ofNat .reservation 3) = some r ∧ r.owner = "alice") ∧
    ∃ p, freed.hub.places.get? "board" = some p ∧ p.acquired = none ∧
      ∃ e, Run.acquirePlace scripted 12 "board" "bob" (Run.start freed.hub []) =
        (.error e, Run.start freed.hub []) := by
  have hstart : Station.start ⟨1000, 1000⟩ none = .ok empty := rfl
  constructor
  · have hboard : (lab.hub.places.get? "board").map (fun p => (p.reservation, p.acquired)) =
        some (some (Identifier.ofNat .reservation 3), some "alice") := by decide +kernel
    obtain ⟨p, hp, hboth⟩ := Option.map_eq_some_iff.mp hboard
    obtain ⟨hreserved, hheld⟩ := Prod.mk.inj hboth
    obtain ⟨r, hr, howner, _⟩ := Course.held_by_owner hstart (course_play empty labScenes)
      lab.hub (Or.inl rfl) "board" p _ hp hreserved
    exact ⟨p, r, hp, hheld, hr, howner "alice" hheld⟩
  · have hboard : (freed.hub.places.get? "board").map (fun p => (p.reservation, p.acquired)) =
        some (some (Identifier.ofNat .reservation 6), none) := by decide +kernel
    have howner : (freed.hub.reservations.get? (Identifier.ofNat .reservation 6)).map
        Reservation.owner = some "alice" := by decide +kernel
    obtain ⟨p, hp, hboth⟩ := Option.map_eq_some_iff.mp hboard
    obtain ⟨hreserved, hfree⟩ := Prod.mk.inj hboth
    have hstep : Step contest ⟨11, some _, freed.attempts⟩ { contest with hub := freed.hub } :=
      .operate scripted [] 11 _
    obtain ⟨r, hr, _, hothers⟩ := Course.held_by_owner hstart
      ((course_play empty (labScenes ++ contestScenes)).step hstep)
      freed.hub (Or.inl rfl) "board" p _ hp hreserved
    have hne : "bob" ≠ r.owner := by
      rw [hr, Option.map_some] at howner
      rw [Option.some.inj howner]
      decide
    exact ⟨p, hp, hfree, (hothers "bob" hne scripted 12 []).1⟩

end Station

end BoardFarm
