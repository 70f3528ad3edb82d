import BoardFarm.Proofs.ReservationLife
import Mathlib.Data.List.Chain
import Mathlib.Data.List.Induction

/-!
# Polled reservations

A reservation that is polled in time stays alive. Its deadline is set when it is made and with
every poll. Passes move it too, but a deadline that is set later is never earlier, so from each
poll to the next there is a moment before which no pass can end the reservation.

* `Reservation.Lasts`, `Hub.Lasts`: a reservation is alive, and its deadline is not before a moment.
* `Hub.Passage.lasts`: an operation before that moment leaves it so.
* `Station.Polled`: a reservation is polled in time.
* `Station.Course.polled_reservation`: until its last deadline it stays alive.
-/

namespace BoardFarm

namespace Timestamp

theorem deadline_mono {now now' : Nat} (h : now ≤ now') (delay : Nat) :
    deadline now delay ≤ deadline now' delay := by
  unfold deadline
  omega

/-- A reading of the clock on the calendar is not behind a deadline that the calendar cuts off. -/
theorem le_deadline {now last delay : Nat} (h : now ≤ last + delay)
    (hcalendar : now ≤ latestMillis) :
    now ≤ deadline last delay :=
  Nat.le_min.mpr ⟨h, hcalendar⟩

end Timestamp

/-- A reservation has not come to its end, and its deadline is not before a moment. -/
structure Reservation.Lasts (r : Reservation) (due : Nat) : Prop where
  live : r.state.isTerminal = false
  timely : due ≤ r.timeout

/-- An operation deletes a place that a reservation has. -/
def Operation.Displaces (op : Operation) (r : Reservation) : Prop :=
  ∃ token address name, op = .request token address (.deletePlace name) ∧ name ∈ r.allocatedPlaces

namespace Hub

/-! ## The steps of a pass -/

section Steps

variable {settings : HubSettings} {places : SortedMap String Place} {now due : Nat}
  {r : Reservation}

theorem isKept_of_lasts (h : r.Lasts due) : isKept now r = true := by
  simp [isKept, h.live]

/-- At the moment of its deadline a reservation does not expire. -/
theorem expire_of_lasts (h : r.Lasts due) (hnow : now ≤ due) : expire settings now r = r := by
  have hearly : r.isOverdue now = false := by
    have hle : now ≤ r.timeout := Nat.le_trans hnow h.timely
    simpa [Reservation.isOverdue] using hle
  simp [expire, hearly]

theorem lasts_follow (h : r.Lasts due)
    (hdue : due ≤ Timestamp.deadline now settings.reservationTimeout)
    (hplaces : ∀ name ∈ r.allocatedPlaces, places.contains name = true) :
    (follow settings places now r).Lasts due := by
  have hexists : r.allocatedPlaces.any (fun name => !places.contains name) = false := by
    rw [List.any_eq_false]
    intro name hname
    simp [hplaces name hname]
  unfold follow
  rw [hexists]
  split
  · exact h
  · rw [if_neg Bool.false_ne_true]
    split
    · exact ⟨rfl, hdue⟩
    · exact ⟨rfl, h.timely⟩

theorem lasts_allocate (h : r.Lasts due)
    (hdue : due ≤ Timestamp.deadline now settings.reservationTimeout)
    (assignment : SortedMap String String) : (allocate settings now assignment r).Lasts due := by
  unfold allocate
  split
  · split
    · exact h
    · exact ⟨rfl, hdue⟩
  · exact h

end Steps

/-! ## Operations -/

/-- The reservation of a token is alive, and its deadline is not before a moment. -/
def Lasts (hub : Hub) (token : Token) (due : Nat) : Prop :=
  ∃ r, hub.reservations.get? token = some r ∧ r.Lasts due

/-- An operation that is carried out before a moment, but not so early that a deadline that is set
now would come before it. It does not give the token out again, and does not take the reservation
or its place away. -/
structure Harmless (o : Occasion) (token : Token) (due : Nat) : Prop where
  early : o.now ≤ due
  late : due ≤ Timestamp.deadline o.now o.hub.settings.reservationTimeout
  fresh : ∀ address filters prio, o.operation ≠ .request token address (.reserve filters prio)
  kept : ∀ r, o.hub.reservations.get? token = some r →
    ¬ o.hub.Cancels o.operation r ∧ ¬ o.operation.Displaces r

variable {o : Occasion} {hub hub' : Hub} {token : Token} {due : Nat}

theorem contains_storePlace (hub : Hub) (q : Place) {name : String}
    (h : hub.places.contains name = true) : (hub.storePlace q).places.contains name = true := by
  obtain ⟨p, hp⟩ := SortedMap.contains_eq_true_iff.mp h
  apply SortedMap.contains_eq_true_iff.mpr
  rw [show (hub.storePlace q).places = hub.places.insert q.name q from rfl, SortedMap.get?_insert]
  split
  · exact ⟨q, rfl⟩
  · exact ⟨p, hp⟩

theorem Linked.contains_allocated (hl : hub.Linked) {r : Reservation}
    (hr : hub.reservations.get? token = some r) :
    ∀ name ∈ r.allocatedPlaces, hub.places.contains name = true := by
  intro name hname
  rcases hl.fits.formed hr with ⟨_, hempty⟩ | ⟨name', hhas⟩
  · rw [Reservation.allocatedPlaces, hempty] at hname
    cases hname
  · rw [hhas.allocatedPlaces, List.mem_singleton] at hname
    obtain ⟨p, hp, _⟩ := hl.fits.suits hr hhas
    rw [hname]
    exact SortedMap.contains_eq_true_iff.mpr ⟨p, hp⟩

/-- A pass before the moment, with the places of the reservation at hand. -/
theorem lasts_schedule {now : Nat} {r : Reservation} (hr : hub.reservations.get? token = some r)
    (h : r.Lasts due) (hnow : now ≤ due)
    (hdue : due ≤ Timestamp.deadline now hub.settings.reservationTimeout)
    (hplaces : ∀ name ∈ r.allocatedPlaces, hub.places.contains name = true) :
    (hub.schedule now).Lasts token due := by
  obtain ⟨assignment, hget⟩ := get?_advance hub.settings hub.places now hub.reservations
  refine ⟨_, ?_, lasts_allocate (lasts_follow h hdue hplaces) hdue assignment⟩
  rw [reservations_schedule, hget, hr]
  simp [Option.filter, isKept_of_lasts h, expire_of_lasts h hnow]

theorem Move.lasts (hm : Move o hub hub') (hl : hub.Linked)
    (hrs : hub.reservations = o.hub.reservations) (hsettings : hub.settings = o.hub.settings)
    (ho : Harmless o token due) (h : hub.Lasts token due) : hub'.Lasts token due := by
  have hkeep : hub.Lasts token due := h
  obtain ⟨r, hr, hlast⟩ := h
  have hhouse := hl.contains_allocated hr
  have hold : o.hub.reservations.get? token = some r := by rw [← hrs, hr]
  -- a pass behind a change that leaves the reservation and its places
  have hpass : ∀ mid : Hub, mid.settings = hub.settings →
      mid.reservations.get? token = some r →
      (∀ name ∈ r.allocatedPlaces, mid.places.contains name = true) →
      (mid.schedule o.now).Lasts token due := by
    intro mid hmid hmidr hplaces
    refine lasts_schedule hmidr hlast ho.early ?_ hplaces
    rw [hmid, hsettings]
    exact ho.late
  have hstored : ∀ q : Place, (((hub.storePlace q).markDirty).schedule o.now).Lasts token due :=
    fun q => hpass _ rfl hr (fun name hname => contains_storePlace hub q (hhouse name hname))
  cases hm with
  | edit _ _ => exact hkeep
  | retag _ _ _ => exact hstored _
  | add _ _ => exact hstored _
  | addDefault => exact hstored _
  | delete name hop =>
    refine hpass _ rfl hr ?_
    intro other hother
    have hne : name ≠ other := by
      rintro rfl
      exact (ho.kept r hold).2 ⟨_, _, name, hop, hother⟩
    obtain ⟨p, hp⟩ := SortedMap.contains_eq_true_iff.mp (hhouse other hother)
    exact SortedMap.contains_eq_true_iff.mpr
      ⟨p, SortedMap.get?_erase_eq_some_iff.mpr ⟨hne.symm, hp⟩⟩
  | acquire hp =>
    unfold completeAcquisition
    rw [hp]
    exact hstored _
  | release hp =>
    unfold completeRelease
    rw [hp]
    exact hstored _
  | attach hp =>
    unfold Hub.Lasts
    rw [Run.reservations_attach]
    exact hkeep
  | replace hrep _ =>
    unfold Hub.Lasts
    rw [Run.reservations_replaceHeld hrep]
    exact hkeep
  | republish handle =>
    unfold Hub.Lasts
    rw [Run.reservations_publishHolders]
    exact hkeep
  | @reserve token' address filters prio hop owner =>
    have hne : token' ≠ token := by
      rintro rfl
      exact ho.fresh address filters prio hop
    refine hpass _ rfl ?_ hhouse
    rw [SortedMap.get?_insert, if_neg hne]
    exact hr
  | @cancel _ address text r' hop hr' =>
    have hne : r'.token ≠ token := by
      intro he
      have hget := get?_of_findReservation hl.fits.toPlanned hr'
      rw [he, hr] at hget
      cases hget
      refine (ho.kept r hold).1 ⟨_, _, _, hop, ?_⟩
      rw [findReservation_eq_ok_iff] at hr' ⊢
      rw [← hrs]
      exact hr'
    exact hpass _ rfl (SortedMap.get?_erase_eq_some_iff.mpr ⟨hne.symm, hr⟩) hhouse
  | @poll token' r' hr' hlive =>
    rw [hl.fits.keyed hr']
    by_cases he : token' = token
    · refine ⟨r'.refresh o.now hub.settings.reservationTimeout, ?_, hlive, ?_⟩
      · rw [SortedMap.get?_insert, if_pos he]
      · rw [hsettings]
        exact ho.late
    · refine ⟨r, ?_, hlast⟩
      rw [SortedMap.get?_insert, if_neg he]
      exact hr
  | schedule => exact hpass hub rfl hr hhouse
  | subscribe id enable => exact hkeep
  | retries b _ => exact hkeep

/-- A harmless operation leaves the reservation alive, also while it waits. -/
theorem Passage.lasts {tells : Bool} {l : List Attempt} (hp : Passage o tells o.hub l hub')
    (hn : o.hub.Named) (hl : o.hub.Linked) (ho : Harmless o token due)
    (h : o.hub.Lasts token due) :
    hub'.Lasts token due ∧ ∀ a ∈ l, a.hub.Lasts token due := by
  have hquiet : ∀ {hub₁ hub₂ : Hub}, Quiet hub₁ hub₂ → hub₁.Lasts token due →
      hub₂.Lasts token due := by
    intro hub₁ hub₂ hq h₁
    unfold Hub.Lasts
    rw [hq.reservations]
    exact h₁
  induction hp with
  | refl => exact ⟨h, fun a ha => by cases ha⟩
  | exchange _ hx ih =>
    refine ⟨hquiet hx.quiet ih.1, fun a ha => ?_⟩
    rcases List.mem_append.mp ha with hold | hnew
    · exact ih.2 a hold
    · exact hquiet (hx.quiet_attempt hnew) ih.1
  | move hp hm honce ih =>
    refine ⟨?_, ih.2⟩
    rcases honce with hfirst | hsame
    · have hlinked := (hp.kept (fun hq h => h.of_quiet hq) (fun hn h hm => hm.linked hn h) hn hl).1
      exact hm.lasts hlinked hfirst hp.rebooking.2 ho ih.1
    · unfold Hub.Lasts
      rw [hsame]
      exact ih.1

/-- Behind the operation that makes it, a reservation lasts until the deadline it was given. -/
theorem Rebooking.made {rs : SortedMap Token Reservation} (hb : Rebooking o rs)
    (h : Planned o.hub.reservations) {r' : Reservation}
    (hnone : o.hub.reservations.get? token = none) (hr' : rs.get? token = some r')
    (hcalendar : o.now ≤ Timestamp.latestMillis) :
    r'.Lasts (Timestamp.deadline o.now o.hub.settings.reservationTimeout) := by
  cases hb with
  | keep =>
    rw [hnone] at hr'
    cases hr'
  | pass places =>
    obtain ⟨r, hr, _⟩ := get?_of_advance hr'
    rw [hnone] at hr
    cases hr
  | @reserve token' address filters prio hop owner places =>
    obtain ⟨assignment, hget⟩ := get?_advance o.hub.settings places o.now
      (o.hub.reservations.insert token'
        (Reservation.new token' owner filters prio o.now o.hub.settings.reservationTimeout))
    rw [hget] at hr'
    obtain ⟨r, hr, rfl⟩ := Option.map_eq_some_iff.mp hr'
    rcases SortedMap.get?_insert_eq_some_iff.mp (Option.filter_eq_some_iff.mp hr).1 with
      ⟨_, rfl⟩ | ⟨_, hold⟩
    · have hnew : (Reservation.new token' owner filters prio o.now
          o.hub.settings.reservationTimeout).Lasts
          (Timestamp.deadline o.now o.hub.settings.reservationTimeout) := ⟨rfl, Nat.le_refl _⟩
      have hnow := Timestamp.le_deadline (Nat.le_add_right o.now o.hub.settings.reservationTimeout)
        hcalendar
      rw [expire_of_lasts hnew hnow]
      refine lasts_allocate (lasts_follow hnew (Nat.le_refl _) ?_) (Nat.le_refl _) assignment
      intro name hname
      cases hname
    · rw [hnone] at hold
      cases hold
  | cancel hop hr places =>
    obtain ⟨r, hr, _⟩ := get?_of_advance hr'
    rw [(SortedMap.get?_erase_eq_some_iff.mp hr).2] at hnone
    cases hnone
  | poll hr hlive =>
    rcases SortedMap.get?_insert_eq_some_iff.mp hr' with ⟨he, _⟩ | ⟨_, hold⟩
    · rw [he, h.keyed hr, hr] at hnone
      cases hnone
    · rw [hnone] at hold
      cases hold

/-- A poll sets the deadline anew. -/
theorem lasts_poll (hl : hub.Linked) (now : Nat) {text : String}
    (hread : readToken text = .ok token) {r : Reservation}
    (hr : hub.reservations.get? token = some r) (hlive : r.state.isTerminal = false) :
    ∃ r' hub', hub.poll now text = .ok (r', hub') ∧
      hub'.Lasts token (Timestamp.deadline now hub.settings.reservationTimeout) := by
  have hfind : hub.findReservation text = .ok r :=
    findReservation_eq_ok_iff.mpr ⟨token, hread, hr⟩
  have htoken : (r.refresh now hub.settings.reservationTimeout).token = token := by
    show r.token = token
    exact hl.fits.keyed hr
  unfold Hub.poll
  rw [hfind]
  dsimp only
  rw [if_neg (by simp [hlive]), htoken]
  refine ⟨_, _, rfl, r.refresh now hub.settings.reservationTimeout, ?_, hlive, Nat.le_refl _⟩
  exact (SortedMap.get?_insert ..).trans (if_pos rfl)

end Hub

/-! ## Courses -/

/-- The token that a turn polls. -/
def Turn.polled (turn : Turn) : Option Token :=
  match turn.operation with
  | some (.request _ _ (.poll text)) => (Hub.readToken text).toOption
  | _ => none

/-- A turn deletes a place that a reservation has. -/
def Turn.Displaces (turn : Turn) (r : Reservation) : Prop :=
  ∃ op, turn.operation = some op ∧ op.Displaces r

namespace Station

/-- The moments at which a token is polled. -/
def polls (token : Token) (l : List (Station × Turn)) : List Nat :=
  (l.filter (fun e => e.2.polled = some token)).map (fun e => e.2.now)

/-- The last moment at which a reservation is polled, or else the moment it was made. -/
def lastPoll (token : Token) (made : Nat) (l : List (Station × Turn)) : Nat :=
  (polls token l).getLastD made

/-- Behind the moment it was made, a reservation is polled in time: the clock never goes back, no
poll is later than some time after the poll before, and no turn later than that after the last. -/
structure Polled (timeout : Nat) (token : Token) (made : Nat) (l : List (Station × Turn)) :
    Prop where
  ordered : (made :: l.map (fun e => e.2.now)).Pairwise (· ≤ ·)
  gaps : (made :: polls token l).IsChain (fun a b => b ≤ a + timeout)
  last : ∀ e ∈ l, e.2.now ≤ lastPoll token made l + timeout

section Polled

variable {timeout made : Nat} {token : Token} {l : List (Station × Turn)} {e : Station × Turn}

theorem polls_concat :
    polls token (l ++ [e]) =
      polls token l ++ (if e.2.polled = some token then [e.2.now] else []) := by
  unfold polls
  rw [List.filter_append, List.map_append, List.filter_singleton]
  split <;> simp_all

theorem lastPoll_concat :
    lastPoll token made (l ++ [e]) =
      if e.2.polled = some token then e.2.now else lastPoll token made l := by
  unfold lastPoll
  rw [polls_concat]
  split <;> simp

theorem lastPoll_mem (token : Token) (made : Nat) (l : List (Station × Turn)) :
    lastPoll token made l ∈ made :: l.map (fun e => e.2.now) := by
  induction l using List.reverseRecOn with
  | nil => exact List.mem_cons_self
  | append_singleton l e ih =>
    rw [lastPoll_concat, List.map_append, ← List.cons_append]
    split
    · exact List.mem_append_right _ List.mem_cons_self
    · exact List.mem_append_left _ ih

/-- The last turn comes between the poll before it and some time after that poll. What comes before
it is polled in time as well. -/
theorem Polled.concat (h : Polled timeout token made (l ++ [e])) :
    Polled timeout token made l ∧ lastPoll token made l ≤ e.2.now ∧
      e.2.now ≤ lastPoll token made l + timeout := by
  have hordered := h.ordered
  rw [List.map_append, ← List.cons_append, List.pairwise_append] at hordered
  obtain ⟨hpast, _, hbehind⟩ := hordered
  have hgaps := h.gaps
  rw [polls_concat, ← List.cons_append, List.isChain_append] at hgaps
  have hend : (made :: polls token l).getLast? = some (lastPoll token made l) := by
    unfold lastPoll
    simp [List.getLast?_cons]
  have hnext : e.2.now ≤ lastPoll token made l + timeout := by
    by_cases hp : e.2.polled = some token
    · refine hgaps.2.2 _ hend e.2.now ?_
      simp [hp]
    · have hlast := h.last e (by simp)
      rw [lastPoll_concat, if_neg hp] at hlast
      exact hlast
  refine ⟨⟨hpast, hgaps.1, ?_⟩, ?_, hnext⟩
  · intro e' he'
    have hle : e'.2.now ≤ e.2.now :=
      hbehind _ (List.mem_cons_of_mem _ (List.mem_map.mpr ⟨e', he', rfl⟩)) _ (by simp)
    exact hle.trans hnext
  · exact hbehind _ (lastPoll_mem token made l) _ (by simp)

end Polled

variable {settings : HubSettings} {directory : Option StateDirectory} {start s t u : Station}
  {turns : List Turn} {turn : Turn} {later : List (Station × Turn)} {token : Token} {due : Nat}

theorem Course.same_settings (h : Station.start settings directory = .ok start)
    (hc : Course start turns s) : s.hub.settings = settings := by
  induction hc with
  | start =>
    obtain ⟨places, hhub, _⟩ := start_ok h
    rw [hhub]
    rfl
  | @step turns s turn t hc hs ih =>
    obtain ⟨hn, hf⟩ := hc.filed h
    rcases hs.passage hn hf with ⟨op, _, hp⟩ | ⟨_, _, dirty, hd⟩
    · exact hp.rebooking.2.trans ih
    · rw [hd]
      exact ih

/-- A turn neither gives a token out, nor takes the reservation of that token or its place away. -/
structure Leaves (token : Token) (e : Station × Turn) : Prop where
  fresh : e.2.reserved ≠ some token
  kept : ∀ r, e.1.hub.reservations.get? token = some r →
    ¬ e.2.Cancels e.1.hub r ∧ ¬ e.2.Displaces r

theorem Step.lasts (hs : Step s turn t) (hn : s.hub.Named) (hf : s.hub.Filed)
    (hl : s.hub.Linked) (hleaves : Leaves token (s, turn)) (hearly : turn.now ≤ due)
    (hlate : due ≤ Timestamp.deadline turn.now s.hub.settings.reservationTimeout)
    (h : s.hub.Lasts token due) :
    t.hub.Lasts token due ∧ ∀ a ∈ turn.attempts, a.hub.Lasts token due := by
  rcases hs.passage hn hf with ⟨op, hop, hp⟩ | ⟨_, hnone, dirty, hd⟩
  · have hharmless : Hub.Harmless ⟨turn.now, op, s.hub⟩ token due := by
      refine ⟨hearly, hlate, ?_, ?_⟩
      · rintro address filters prio rfl
        apply hleaves.fresh
        unfold Turn.reserved
        rw [hop]
      · intro r hr
        obtain ⟨hcancel, hdisplace⟩ := hleaves.kept r hr
        exact ⟨fun hc => hcancel ⟨op, hop, hc⟩, fun hd => hdisplace ⟨op, hop, hd⟩⟩
    exact hp.lasts hn hl hharmless h
  · rw [hd, hnone]
    exact ⟨h, fun a ha => by cases ha⟩

/-- A turn that polls a reservation before its deadline sets the deadline anew. -/
theorem Step.polls (hs : Step s turn t) (hl : s.hub.Linked) (hpolled : turn.polled = some token)
    (h : s.hub.Lasts token due) :
    t.hub.Lasts token (Timestamp.deadline turn.now s.hub.settings.reservationTimeout) := by
  obtain ⟨r, hr, hlast⟩ := h
  unfold Turn.polled at hpolled
  split at hpolled
  · rename_i token' address text hop
    cases hread : Hub.readToken text with
    | error e =>
      rw [hread] at hpolled
      cases hpolled
    | ok token'' =>
      rw [hread] at hpolled
      cases hpolled
      obtain ⟨r', hub', hpoll, hlasts⟩ := Hub.lasts_poll hl turn.now hread hr hlast.live
      cases hs with
      | operate react around now op =>
        cases hop
        have hhub : (s.operate react around now (.request token' address (.poll text))).hub =
            hub' := by
          show ((Run.start s.hub around).answer (s.hub.poll now text)).2.hub = hub'
          rw [hpoll]
          rfl
        dsimp only
        rw [hhub]
        exact hlasts
      | save now => cases hop
      | saveIfDirty now => cases hop
  · cases hpolled

/-- Behind the turn that makes it, a reservation lasts until the deadline it was given. -/
theorem Step.made (hs : Step s turn t) (hn : s.hub.Named) (hf : s.hub.Filed) (hl : s.hub.Linked)
    (hnone : s.hub.reservations.get? token = none) {r : Reservation}
    (hr : t.hub.reservations.get? token = some r)
    (hcalendar : turn.now ≤ Timestamp.latestMillis) :
    t.hub.Lasts token (Timestamp.deadline turn.now s.hub.settings.reservationTimeout) := by
  rcases hs.rebooking hn hf with ⟨op, _, hb⟩ | ⟨_, hsame⟩
  · exact ⟨r, hr, hb.made hl.fits.toPlanned hnone hr hcalendar⟩
  · rw [hsame, hnone] at hr
    cases hr

/-- A reservation that is polled in time, is not cancelled and keeps its place is alive behind
every turn, and its deadline is some time after the last poll, or at the end of the calendar. -/
theorem Itinerary.lasts (h : Station.start settings directory = .ok start)
    (hc : Course start turns t) (hi : Itinerary t later u) {made : Nat}
    (hmade : t.hub.Lasts token (Timestamp.deadline made settings.reservationTimeout))
    (hpolled : Polled settings.reservationTimeout token made later)
    (hcalendar : ∀ e ∈ later, e.2.now ≤ Timestamp.latestMillis)
    (hleaves : ∀ e ∈ later, Leaves token e) :
    u.hub.Lasts token
        (Timestamp.deadline (lastPoll token made later) settings.reservationTimeout) ∧
      ∀ e ∈ later, ∀ hub, (hub = e.1.hub ∨ ∃ a ∈ e.2.attempts, hub = a.hub) →
        ∃ r, hub.reservations.get? token = some r ∧ r.state.isTerminal = false := by
  induction hi with
  | start => exact ⟨hmade, fun e he => by cases he⟩
  | @step later v turn w hi hs ih =>
    obtain ⟨hpast, hafter, hbefore⟩ := hpolled.concat
    obtain ⟨hv, hall⟩ := ih hpast (fun e he => hcalendar e (List.mem_append_left _ he))
      (fun e he => hleaves e (List.mem_append_left _ he))
    have hcv := hc.trans hi.course
    obtain ⟨hn, hf⟩ := hcv.filed h
    have hsettings := hcv.same_settings h
    have hlast : (v, turn) ∈ later ++ [(v, turn)] := by simp
    -- the turn is not behind the deadline of the last poll, and a later deadline is not before it
    have hearly := Timestamp.le_deadline hbefore (hcalendar _ hlast)
    have hlate := Timestamp.deadline_mono hafter settings.reservationTimeout
    have hstep := hs.lasts hn hf (hcv.linked h) (hleaves _ hlast) hearly
      (by rw [hsettings]; exact hlate) hv
    refine ⟨?_, ?_⟩
    · rw [lastPoll_concat]
      split
      · rename_i hp
        rw [← hsettings]
        exact hs.polls (hcv.linked h) hp hv
      · exact hstep.1
    · intro e he hub hhub
      rcases List.mem_append.mp he with hold | hnew
      · exact hall e hold hub hhub
      · rw [List.mem_singleton.mp hnew] at hhub
        rcases hhub with rfl | ⟨a, ha, rfl⟩
        · obtain ⟨r, hr, hr'⟩ := hv
          exact ⟨r, hr, hr'.live⟩
        · obtain ⟨r, hr, hr'⟩ := hstep.2 a ha
          exact ⟨r, hr, hr'.live⟩

/-- Let a reservation be made by a turn, and be polled in time behind it. Unless it is cancelled or
its place is deleted, it is alive throughout: before every turn, whenever the outcome of a command
becomes known, and behind the last turn, where its deadline is some time after the last poll, or at
the end of the calendar. -/
theorem Course.polled_reservation (h : Station.start settings directory = .ok start)
    (hc : Course start turns s) (hs : Step s turn t) {r₀ : Reservation}
    (hnone : s.hub.reservations.get? token = none)
    (hmade : t.hub.reservations.get? token = some r₀) (hi : Itinerary t later u)
    (hpolled : Polled settings.reservationTimeout token turn.now later)
    (hcalendar : ∀ e ∈ (s, turn) :: later, e.2.now ≤ Timestamp.latestMillis)
    (hleaves : ∀ e ∈ later, Leaves token e) :
    (∃ r, u.hub.reservations.get? token = some r ∧ r.state.isTerminal = false ∧
      Timestamp.deadline (lastPoll token turn.now later) settings.reservationTimeout ≤
        r.timeout) ∧
    ∀ e ∈ later, ∀ hub, (hub = e.1.hub ∨ ∃ a ∈ e.2.attempts, hub = a.hub) →
      ∃ r, hub.reservations.get? token = some r ∧ r.state.isTerminal = false := by
  obtain ⟨hn, hf⟩ := hc.filed h
  have hnew := hs.made hn hf (hc.linked h) hnone hmade (hcalendar _ List.mem_cons_self)
  rw [hc.same_settings h] at hnew
  obtain ⟨⟨r, hr, hlasts⟩, hall⟩ := Itinerary.lasts h (hc.step hs) hi hnew hpolled
    (fun e he => hcalendar e (List.mem_cons_of_mem _ he)) hleaves
  exact ⟨⟨r, hr, hlasts.live, hlasts.timely⟩, hall⟩

/-- The laboratory in which the reservation of the board is polled each time at its very deadline,
while the board is acquired and released. -/
def polledScenes : List Scene :=
  [⟨7, .request (Identifier.ofNat .reservation 4) (some "desk") (.acquire "board"),
      [[.exporterTakes 0, .exporterTakes 0, .exporterSends 0 (labReport "board"),
        .exporterSends 0 (.response Answer.done)]]⟩,
   ⟨900, .request (Identifier.ofNat .reservation 5) none (.release "board" none), []⟩,
   ⟨1006, .request (Identifier.ofNat .reservation 6) none
      (.poll (Identifier.ofNat .reservation 3).text), []⟩,
   ⟨2006, .request (Identifier.ofNat .reservation 7) none
      (.poll (Identifier.ofNat .reservation 3).text), []⟩,
   ⟨3006, .schedule, []⟩]

/-- There the reservation is alive a whole delay behind its last poll. The next moment is too
late. -/
theorem polled_reservation_lab :
    (∃ r, (reserved.play polledScenes).2.hub.reservations.get? (Identifier.ofNat .reservation 3) =
      some r ∧ r.state.isTerminal = false ∧ 3006 ≤ r.timeout) ∧
    ((((reserved.play polledScenes).2.hub.schedule 3007).reservations.get?
      (Identifier.ofNat .reservation 3)).map Reservation.state) = some .expired := by
  have hstart : Station.start ⟨1000, 1000⟩ none = .ok empty := rfl
  let s : Station := (empty.play (labScenes.take 8)).2
  let scene : Scene := labScenes.getD 8 ⟨0, .schedule, []⟩
  have hstep : Step s ⟨scene.now, some scene.operation,
      (s.operate scripted scene.waits scene.now scene.operation).attempts⟩ reserved :=
    .operate scripted scene.waits scene.now scene.operation
  have hnone : s.hub.reservations.get? (Identifier.ofNat .reservation 3) = none := by
    decide +kernel
  have hmade :
      (reserved.hub.reservations.get? (Identifier.ofNat .reservation 3)).isSome = true := by
    decide +kernel
  have hpolled : Polled 1000 (Identifier.ofNat .reservation 3) 6 (reserved.stages polledScenes) :=
    ⟨by decide +kernel, by decide +kernel, by decide +kernel⟩
  have hops : ∀ e ∈ reserved.stages polledScenes,
      e.2.reserved ≠ some (Identifier.ofNat .reservation 3) ∧
        e.2.operation ∈ polledScenes.map (fun e => some e.operation) := by decide +kernel
  have hleaves : ∀ e ∈ reserved.stages polledScenes,
      Leaves (Identifier.ofNat .reservation 3) e := by
    intro e he
    obtain ⟨hfresh, hop⟩ := hops e he
    refine ⟨hfresh, fun r _ => ⟨?_, ?_⟩⟩
    · rintro ⟨_, he, token, address, text, rfl, _⟩
      rw [he] at hop
      simp [polledScenes] at hop
    · rintro ⟨_, he, token, address, name, rfl, _⟩
      rw [he] at hop
      simp [polledScenes] at hop
  have hdue : Timestamp.deadline (lastPoll (Identifier.ofNat .reservation 3) 6
      (reserved.stages polledScenes)) 1000 = 3006 := by decide +kernel
  obtain ⟨r, hr⟩ := Option.isSome_iff_exists.mp hmade
  obtain ⟨⟨r', hr', hlive, htimely⟩, _⟩ := Course.polled_reservation hstart
    (course_play empty (labScenes.take 8)) hstep hnone hr (itinerary_stages reserved polledScenes)
    hpolled (by decide +kernel) hleaves
  exact ⟨⟨r', hr', hlive, hdue ▸ htimely⟩, by decide +kernel⟩

end Station

end BoardFarm
