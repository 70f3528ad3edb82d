import BoardFarm.Proofs.ReservationLink
import Mathlib.Logic.Relation

/-!
# The life of a reservation

A pass deletes, expires, follows and allocates all reservations, one step behind the other. Still
each reservation takes at most one way of its life with an operation: the steps of a pass never
build on one another, and no operation makes two passes. The tokens of new reservations are
arbitrary, so it has to be said that no token is given out twice.

* `ReservationState.leadsTo`: the ways of life.
* `Reservation.Proceeds`, `Reservation.Lives`: what one operation, or many, may make of one.
* `Hub.proceeds_pass`: a pass takes every reservation at most one way.
* `Hub.Rebooking`: what an operation does to the reservations.
* `Station.Course.reservation_life`: the life of a reservation throughout a course.
-/

namespace BoardFarm

namespace ReservationState

/-- The changes of state in the life of a reservation. -/
def leadsTo : ReservationState → ReservationState → Bool
  | waiting, allocated => true
  | waiting, expired => true
  | allocated, acquired => true
  | allocated, expired => true
  | allocated, invalid => true
  | acquired, allocated => true
  | acquired, invalid => true
  | _, _ => false

theorem isTerminal_of_hasPlace {s : ReservationState} (h : s.hasPlace = true) :
    s.isTerminal = false := by
  revert h
  cases s <;> decide

theorem isTerminal_of_expires {s : ReservationState} (h : s.expires = true) :
    s.isTerminal = false := by
  revert h
  cases s <;> decide

end ReservationState

namespace Reservation

/-- What one operation may make of a reservation. At its end it does not change any more, and it
keeps its place as long as it has one. -/
structure Proceeds (r r' : Reservation) : Prop where
  state : r'.state = r.state ∨ r.state.leadsTo r'.state = true
  ended : r.state.isTerminal = true → r' = r
  place : r.state.hasPlace = true → r'.state.hasPlace = true → r'.allocations = r.allocations

theorem Proceeds.refl (r : Reservation) : r.Proceeds r := ⟨Or.inl rfl, fun _ => rfl, fun _ _ => rfl⟩

/-- What several operations may make of a reservation. -/
structure Lives (r r' : Reservation) : Prop where
  states : Relation.ReflTransGen (fun a b => a.leadsTo b = true) r.state r'.state
  ended : r.state.isTerminal = true → r' = r
  place : r.state.hasPlace = true →
    r'.state.isTerminal = true ∨ r'.state.hasPlace = true ∧ r'.allocations = r.allocations

theorem Lives.refl (r : Reservation) : r.Lives r :=
  ⟨.refl, fun _ => rfl, fun h => Or.inr ⟨h, rfl⟩⟩

/-- A reservation that has a place and does not end keeps having one. -/
theorem Proceeds.hasPlace_or {r r' : Reservation} (h : r.Proceeds r')
    (hplace : r.state.hasPlace = true) :
    r'.state.isTerminal = true ∨ r'.state.hasPlace = true := by
  rcases h.state with he | hlead
  · rw [he]
    exact Or.inr hplace
  · revert hplace hlead
    cases r.state <;> cases r'.state <;> decide

theorem Lives.proceed {r r' r'' : Reservation} (h : r.Lives r') (hp : r'.Proceeds r'') :
    r.Lives r'' := by
  refine ⟨?_, ?_, ?_⟩
  · rcases hp.state with he | hlead
    · rw [he]
      exact h.states
    · exact h.states.tail hlead
  · intro hended
    have he := h.ended hended
    rw [he] at hp
    exact hp.ended hended
  · intro hplace
    rcases h.place hplace with hended | ⟨hplace', hsame⟩
    · rw [hp.ended hended]
      exact Or.inl hended
    · rcases hp.hasPlace_or hplace' with hended | hplace''
      · exact Or.inl hended
      · exact Or.inr ⟨hplace'', (hp.place hplace' hplace'').trans hsame⟩

end Reservation

namespace Hub

/-! ## The steps of a pass -/

section Steps

variable (settings : HubSettings) (places : SortedMap String Place) (now : Nat)
  (assignment : SortedMap String String) (r : Reservation)

theorem expire_cases :
    expire settings now r = r ∨
      r.state.expires = true ∧ (expire settings now r).state = .expired := by
  unfold expire
  split
  · rename_i h
    rw [Bool.and_eq_true] at h
    exact Or.inr ⟨h.1, rfl⟩
  · exact Or.inl rfl

theorem follow_cases :
    r.state.hasPlace = false ∧ follow settings places now r = r ∨
      r.state.hasPlace = true ∧ ((follow settings places now r).state = .invalid ∨
        (follow settings places now r).state.hasPlace = true ∧
          (follow settings places now r).allocations = r.allocations) := by
  unfold follow
  split
  · rename_i h
    exact Or.inl ⟨by simpa using h, rfl⟩
  · rename_i h
    have hplace : r.state.hasPlace = true := by simpa using h
    split
    · exact Or.inr ⟨hplace, Or.inl rfl⟩
    · split <;> exact Or.inr ⟨hplace, Or.inr ⟨rfl, rfl⟩⟩

theorem allocate_of_ne (h : r.state ≠ .waiting) : allocate settings now assignment r = r := by
  unfold allocate
  rw [if_neg h]

/-- A pass takes every reservation at most one way. -/
theorem proceeds_pass :
    r.Proceeds (allocate settings now assignment
      (follow settings places now (expire settings now r))) := by
  rcases expire_cases settings now r with he | ⟨hexpires, hexpired⟩
  · rw [he]
    rcases follow_cases settings places now r with ⟨hidle, hf⟩ | ⟨hplace, hf⟩
    · rw [hf]
      rcases allocate_cases settings now assignment r with ha | ⟨hwaiting, place, _, _, hstate, _⟩
      · rw [ha]
        exact .refl r
      · refine ⟨Or.inr ?_, ?_, ?_⟩
        · rw [hwaiting, hstate]
          rfl
        · rw [hwaiting]
          exact fun h => by cases h
        · rw [hidle]
          exact fun h => by cases h
    · -- what follows its place does not wait, so it is not allocated anew
      generalize follow settings places now r = r' at hf
      have hne : r'.state ≠ .waiting := by
        intro hw
        rw [hw] at hf
        rcases hf with h | ⟨h, _⟩ <;> cases h
      rw [allocate_of_ne settings now assignment r' hne]
      refine ⟨?_, ?_, ?_⟩
      · rcases hf with hinvalid | ⟨hplace', _⟩
        · rw [hinvalid]
          revert hplace
          cases r.state <;> decide
        · revert hplace hplace'
          cases r.state <;> cases r'.state <;> decide
      · rw [ReservationState.isTerminal_of_hasPlace hplace]
        exact fun h => by cases h
      · intro _ hplace'
        rcases hf with hinvalid | ⟨_, hsame⟩
        · rw [hinvalid] at hplace'
          cases hplace'
        · exact hsame
  · -- an expired reservation is passed over by the steps behind
    generalize expire settings now r = r' at hexpired
    have hf : follow settings places now r' = r' := by
      unfold follow
      rw [hexpired]
      rfl
    rw [hf, allocate_of_ne settings now assignment r' (by rw [hexpired]; decide)]
    refine ⟨Or.inr ?_, ?_, ?_⟩
    · rw [hexpired]
      revert hexpires
      cases r.state <;> decide
    · rw [ReservationState.isTerminal_of_expires hexpires]
      exact fun h => by cases h
    · rw [hexpired]
      exact fun _ h => by cases h

end Steps

/-- A pass treats each reservation by itself, but for the assignment. -/
theorem get?_advance (settings : HubSettings) (places : SortedMap String Place) (now : Nat)
    (rs : SortedMap Token Reservation) : ∃ assignment, ∀ token,
      (advance settings places now rs).get? token =
        ((rs.get? token).filter (isKept now)).map (fun r => allocate settings now assignment
          (follow settings places now (expire settings now r))) := by
  let followed := (rs.filter (fun _ r => isKept now r)).mapValues (fun _ r =>
    follow settings places now (expire settings now r))
  let assignment := Scheduling.assign (freePlaces places followed) (wanted followed)
  have hadvance : advance settings places now rs =
      followed.mapValues (fun _ r => allocate settings now assignment r) := rfl
  refine ⟨assignment, fun token => ?_⟩
  rw [hadvance, SortedMap.get?_mapValues, SortedMap.get?_mapValues, SortedMap.get?_filter,
    Option.map_map]
  rfl

/-- Behind a pass a reservation has gone at most one way, or it has come to its end before and its
deadline has passed. -/
theorem advance_of_get? {settings : HubSettings} {places : SortedMap String Place} {now : Nat}
    {rs : SortedMap Token Reservation} {token : Token} {r : Reservation}
    (hr : rs.get? token = some r) :
    (∃ r', (advance settings places now rs).get? token = some r' ∧ r.Proceeds r') ∨
      (advance settings places now rs).get? token = none ∧ r.state.isTerminal = true ∧
        r.isOverdue now = true := by
  obtain ⟨assignment, hget⟩ := get?_advance settings places now rs
  rw [hget, hr]
  cases hkept : isKept now r with
  | true =>
    left
    refine ⟨_, ?_, proceeds_pass settings places now assignment r⟩
    simp [Option.filter, hkept]
  | false =>
    right
    have hdrop : (r.state.isTerminal && r.isOverdue now) = true := by
      simpa [isKept] using hkept
    rw [Bool.and_eq_true] at hdrop
    exact ⟨by simp [Option.filter, hkept], hdrop⟩

theorem get?_of_advance {settings : HubSettings} {places : SortedMap String Place} {now : Nat}
    {rs : SortedMap Token Reservation} {token : Token} {r' : Reservation}
    (hr' : (advance settings places now rs).get? token = some r') :
    ∃ r, rs.get? token = some r ∧ r.Proceeds r' := by
  obtain ⟨assignment, hget⟩ := get?_advance settings places now rs
  rw [hget] at hr'
  obtain ⟨r, hr, rfl⟩ := Option.map_eq_some_iff.mp hr'
  exact ⟨r, (Option.filter_eq_some_iff.mp hr).1, proceeds_pass settings places now assignment r⟩

/-! ## Operations -/

/-- What an operation does to the reservations: nothing, or one pass, also behind a new reservation
or without a cancelled one, or it moves the deadline of one that has not come to its end. -/
inductive Rebooking (o : Occasion) : SortedMap Token Reservation → Prop
  | keep : Rebooking o o.hub.reservations
  | pass (places : SortedMap String Place) :
      Rebooking o (advance o.hub.settings places o.now o.hub.reservations)
  | reserve {token : Token} {address : Option String} {filters : Filters} {prio : Double}
      (hop : o.operation = .request token address (.reserve filters prio)) (owner : String)
      (places : SortedMap String Place) :
      Rebooking o (advance o.hub.settings places o.now (o.hub.reservations.insert token
        (Reservation.new token owner filters prio o.now o.hub.settings.reservationTimeout)))
  | cancel {token : Token} {address : Option String} {text : String} {r : Reservation}
      (hop : o.operation = .request token address (.cancel text))
      (hr : o.hub.findReservation text = .ok r) (places : SortedMap String Place) :
      Rebooking o (advance o.hub.settings places o.now (o.hub.reservations.erase r.token))
  | poll {token : Token} {r : Reservation} (hr : o.hub.reservations.get? token = some r)
      (hlive : r.state.isTerminal = false) :
      Rebooking o (o.hub.reservations.insert r.token
        (r.refresh o.now o.hub.settings.reservationTimeout))

variable {o : Occasion} {hub hub' : Hub}

theorem Move.rebooking (hm : Move o hub hub') (hrs : hub.reservations = o.hub.reservations)
    (hsettings : hub.settings = o.hub.settings) : Rebooking o hub'.reservations := by
  -- a pass, whatever has been done to places before it
  have hpass : ∀ mid : Hub, mid.reservations = hub.reservations → mid.settings = hub.settings →
      Rebooking o (mid.schedule o.now).reservations := by
    intro mid hmid hmid'
    rw [reservations_schedule, hmid, hmid', hrs, hsettings]
    exact .pass mid.places
  have hkeep : Rebooking o hub.reservations := by
    rw [hrs]
    exact .keep
  cases hm with
  | edit _ _ => exact hkeep
  | retag _ _ _ => exact hpass _ rfl rfl
  | add _ _ => exact hpass _ rfl rfl
  | addDefault => exact hpass _ rfl rfl
  | delete name => exact hpass _ rfl rfl
  | acquire hp =>
    unfold completeAcquisition
    rw [hp]
    exact hpass _ rfl rfl
  | release hp =>
    unfold completeRelease
    rw [hp]
    exact hpass _ rfl rfl
  | attach hp =>
    rw [Run.reservations_attach]
    exact hkeep
  | replace hr _ =>
    rw [Run.reservations_replaceHeld hr]
    exact hkeep
  | republish handle =>
    rw [Run.reservations_publishHolders]
    exact hkeep
  | reserve hop owner =>
    rw [reservations_schedule]
    dsimp only
    rw [hrs, hsettings]
    exact .reserve hop owner hub.places
  | cancel hop hr =>
    rw [reservations_schedule]
    dsimp only
    rw [hrs, hsettings]
    refine .cancel hop ?_ hub.places
    rw [findReservation_eq_ok_iff] at hr ⊢
    rw [← hrs]
    exact hr
  | poll hr hlive =>
    rw [hsettings, hrs]
    rw [hrs] at hr
    exact .poll hr hlive
  | schedule => exact hpass hub rfl rfl
  | subscribe id enable => exact hkeep
  | retries b => exact hkeep

theorem Writes.settings (hw : Writes hub hub') : hub'.settings = hub.settings := by
  induction hw with
  | refl => rfl
  | tail _ hw ih => cases hw <;> exact ih

/-- Every operation rebooks in one of these ways, for it changes the reservations only once. -/
theorem Passage.rebooking {tells : Bool} {l : List Attempt} (hp : Passage o tells o.hub l hub') :
    Rebooking o hub'.reservations ∧ hub'.settings = o.hub.settings := by
  induction hp with
  | refl => exact ⟨.keep, rfl⟩
  | exchange _ hx ih =>
    rw [hx.quiet.reservations, hx.quiet.settings]
    exact ih
  | move _ hm honce ih =>
    obtain ⟨hr, hsettings⟩ := ih
    refine ⟨?_, (Writes.settings hm.writes).trans hsettings⟩
    rcases honce with hfirst | hsame
    · exact hm.rebooking hfirst hsettings
    · rw [hsame]
      exact hr

/-- A reservation that an operation cancels. -/
def Cancels (hub : Hub) (op : Operation) (r : Reservation) : Prop :=
  ∃ token address text, op = .request token address (.cancel text) ∧
    hub.findReservation text = .ok r

/-- A reservation has come to its end, its deadline has passed, and a pass deletes it. -/
structure Deletes (hub : Hub) (now : Nat) (rs : SortedMap Token Reservation) (token : Token)
    (r : Reservation) : Prop where
  ended : r.state.isTerminal = true
  overdue : r.isOverdue now = true
  pass : ∃ places before, before.get? token = some r ∧
    rs = advance hub.settings places now before

/-- The one reservation of a token. -/
theorem get?_of_findReservation (h : Planned hub.reservations) {text : String} {r : Reservation}
    (hr : hub.findReservation text = .ok r) : hub.reservations.get? r.token = some r := by
  obtain ⟨token, _, hget⟩ := findReservation_eq_ok_iff.mp hr
  rw [h.keyed hget]
  exact hget

/-- Unless its token is given out again, a reservation goes at most one way with an operation. It
disappears only if it is cancelled or deleted behind its end. -/
theorem Rebooking.proceeds {rs : SortedMap Token Reservation} (hb : Rebooking o rs)
    (h : Planned o.hub.reservations) {token : Token} {r : Reservation}
    (hr : o.hub.reservations.get? token = some r)
    (hfresh : ∀ address filters prio,
      o.operation ≠ .request token address (.reserve filters prio)) :
    (∃ r', rs.get? token = some r' ∧ r.Proceeds r') ∨
      rs.get? token = none ∧
        (Cancels o.hub o.operation r ∨ Deletes o.hub o.now rs token r) := by
  have hpass : ∀ places before, before.get? token = some r →
      (∃ r', (advance o.hub.settings places o.now before).get? token = some r' ∧
        r.Proceeds r') ∨
      (advance o.hub.settings places o.now before).get? token = none ∧
        (Cancels o.hub o.operation r ∨
          Deletes o.hub o.now (advance o.hub.settings places o.now before) token r) := by
    intro places before hbefore
    rcases advance_of_get? hbefore with hkept | ⟨hnone, hended, hoverdue⟩
    · exact Or.inl hkept
    · exact Or.inr ⟨hnone, Or.inr ⟨hended, hoverdue, places, before, hbefore, rfl⟩⟩
  cases hb with
  | keep => exact Or.inl ⟨r, hr, .refl r⟩
  | pass places => exact hpass places _ hr
  | @reserve token' address filters prio hop owner places =>
    have hne : token' ≠ token := by
      rintro rfl
      exact hfresh address filters prio hop
    exact hpass places _ (by rw [SortedMap.get?_insert, if_neg hne]; exact hr)
  | @cancel _ address text r' hop hr' places =>
    by_cases he : r'.token = token
    · have hget := get?_of_findReservation h hr'
      rw [he, hr] at hget
      cases hget
      right
      obtain ⟨_, hall⟩ := get?_advance o.hub.settings places o.now
        (o.hub.reservations.erase r.token)
      rw [hall, SortedMap.get?_erase, if_pos he]
      exact ⟨rfl, Or.inl ⟨_, _, _, hop, hr'⟩⟩
    · exact hpass places _ (by rw [SortedMap.get?_erase, if_neg he]; exact hr)
  | @poll token' r' hr' hlive =>
    rw [h.keyed hr', SortedMap.get?_insert]
    split
    · rename_i he
      subst he
      rw [hr] at hr'
      cases hr'
      refine Or.inl ⟨_, rfl, Or.inl rfl, ?_, fun _ _ => rfl⟩
      rw [hlive]
      exact fun hended => by cases hended
    · exact Or.inl ⟨r, hr, .refl r⟩

/-- A new reservation has the token of the request that made it. It waits, or it has gone one way
already. -/
theorem Rebooking.reserved {rs : SortedMap Token Reservation} (hb : Rebooking o rs)
    (h : Planned o.hub.reservations) {token : Token} {r' : Reservation}
    (hnone : o.hub.reservations.get? token = none) (hr' : rs.get? token = some r') :
    (∃ address filters prio, o.operation = .request token address (.reserve filters prio)) ∧
      (r'.state = .waiting ∨ ReservationState.waiting.leadsTo r'.state = true) := by
  cases hb with
  | keep =>
    rw [hnone] at hr'
    cases hr'
  | pass places =>
    obtain ⟨r, hr, _⟩ := get?_of_advance hr'
    rw [hnone] at hr
    cases hr
  | reserve hop owner places =>
    obtain ⟨r, hr, hp⟩ := get?_of_advance hr'
    rcases SortedMap.get?_insert_eq_some_iff.mp hr with ⟨rfl, rfl⟩ | ⟨_, hold⟩
    · exact ⟨⟨_, _, _, hop⟩, hp.state⟩
    · rw [hnone] at hold
      cases hold
  | cancel hop hr places =>
    obtain ⟨r, hr, _⟩ := get?_of_advance hr'
    rw [(SortedMap.get?_erase_eq_some_iff.mp hr).2] at hnone
    cases hnone
  | poll hr hlive =>
    rcases SortedMap.get?_insert_eq_some_iff.mp hr' with ⟨he, _⟩ | ⟨_, hold⟩
    · rw [he, h.keyed hr, hr] at hnone
      cases hnone
    · rw [hnone] at hold
      cases hold

end Hub

/-- The token that a request for a reservation is given. -/
def Turn.reserved (turn : Turn) : Option Token :=
  match turn.operation with
  | some (.request token _ (.reserve _ _)) => some token
  | _ => none

/-- A reservation that a turn cancels. -/
def Turn.Cancels (turn : Turn) (hub : Hub) (r : Reservation) : Prop :=
  ∃ op, turn.operation = some op ∧ hub.Cancels op r

namespace Station

variable {settings : HubSettings} {directory : Option StateDirectory} {start s t : Station}
  {turns : List Turn} {turn : Turn} {token : Token}

theorem Course.linked (h : Station.start settings directory = .ok start)
    (hc : Course start turns s) : s.hub.Linked :=
  (hc.kept h (linked_start h) (fun hq hl => hl.of_quiet hq) (fun hn hl hm => hm.linked hn hl)).1

/-- A turn rebooks on the occasion of its operation, or leaves the reservations alone. -/
theorem Step.rebooking (hs : Step s turn t) (hn : s.hub.Named) (hf : s.hub.Filed) :
    (∃ op, turn.operation = some op ∧
      Hub.Rebooking ⟨turn.now, op, s.hub⟩ t.hub.reservations) ∨
      turn.operation = none ∧ t.hub.reservations = s.hub.reservations := by
  rcases hs.passage hn hf with ⟨op, hop, hp⟩ | ⟨hop, _, dirty, hd⟩
  · exact Or.inl ⟨op, hop, hp.rebooking.1⟩
  · rw [hd]
    exact Or.inr ⟨hop, rfl⟩

theorem Step.proceeds (hs : Step s turn t) (hn : s.hub.Named) (hf : s.hub.Filed)
    (hl : s.hub.Linked) {r : Reservation} (hr : s.hub.reservations.get? token = some r)
    (hfresh : turn.reserved ≠ some token) :
    (∃ r', t.hub.reservations.get? token = some r' ∧ r.Proceeds r') ∨
      t.hub.reservations.get? token = none ∧
        (turn.Cancels s.hub r ∨ s.hub.Deletes turn.now t.hub.reservations token r) := by
  rcases hs.rebooking hn hf with ⟨op, hop, hb⟩ | ⟨_, hsame⟩
  · have hother : ∀ address filters prio, op ≠ .request token address (.reserve filters prio) := by
      rintro address filters prio rfl
      apply hfresh
      unfold Turn.reserved
      rw [hop]
    rcases hb.proceeds hl.fits.toPlanned hr hother with hkept | ⟨hnone, hc | hd⟩
    · exact Or.inl hkept
    · exact Or.inr ⟨hnone, Or.inl ⟨op, hop, hc⟩⟩
    · exact Or.inr ⟨hnone, Or.inr hd⟩
  · rw [hsame]
    exact Or.inl ⟨r, hr, .refl r⟩

theorem Step.reserved (hs : Step s turn t) (hn : s.hub.Named) (hf : s.hub.Filed)
    (hl : s.hub.Linked) {r' : Reservation} (hnone : s.hub.reservations.get? token = none)
    (hr' : t.hub.reservations.get? token = some r') :
    turn.reserved = some token ∧
      (r'.state = .waiting ∨ ReservationState.waiting.leadsTo r'.state = true) := by
  rcases hs.rebooking hn hf with ⟨op, hop, hb⟩ | ⟨_, hsame⟩
  · obtain ⟨⟨address, filters, prio, rfl⟩, hstate⟩ := hb.reserved hl.fits.toPlanned hnone hr'
    refine ⟨?_, hstate⟩
    unfold Turn.reserved
    rw [hop]
  · rw [hsame, hnone] at hr'
    cases hr'

/-- Every reservation has a token that was given out. -/
theorem Course.token_mem (h : Station.start settings directory = .ok start)
    (hc : Course start turns s) {r : Reservation}
    (hr : s.hub.reservations.get? token = some r) : token ∈ turns.filterMap Turn.reserved := by
  induction hc generalizing r with
  | start =>
    obtain ⟨places, hhub, _⟩ := start_ok h
    rw [hhub] at hr
    cases hr
  | @step turns s turn t hc hs ih =>
    obtain ⟨hn, hf⟩ := hc.filed h
    rw [List.filterMap_append]
    cases hold : s.hub.reservations.get? token with
    | some r₀ => exact List.mem_append_left _ (ih hold)
    | none =>
      obtain ⟨hnew, _⟩ := hs.reserved hn hf (hc.linked h) hold hr
      exact List.mem_append_right _ (by simp [hnew])

theorem Course.trans {later : List Turn} (hc : Course start turns s) (hl : Course s later t) :
    Course start (turns ++ later) t := by
  induction hl with
  | start => simpa using hc
  | step _ hs ih =>
    rw [← List.append_assoc]
    exact ih.step hs

/-- As long as its token is not given out again, a reservation lives on or is gone for good. -/
theorem Course.lives (h : Station.start settings directory = .ok start)
    (hc : Course start turns s) {later : List Turn} (hl : Course s later t) {r : Reservation}
    (hr : s.hub.reservations.get? token = some r)
    (hfresh : ∀ turn ∈ later, turn.reserved ≠ some token) :
    t.hub.reservations.get? token = none ∨
      ∃ r', t.hub.reservations.get? token = some r' ∧ r.Lives r' := by
  induction hl with
  | start => exact Or.inr ⟨r, hr, .refl r⟩
  | @step later u turn t hl hs ih =>
    obtain ⟨hn, hf⟩ := (hc.trans hl).filed h
    have hlinked := (hc.trans hl).linked h
    have hlast : turn.reserved ≠ some token := hfresh turn (by simp)
    rcases ih (fun turn' ht => hfresh turn' (List.mem_append_left _ ht)) with
      hgone | ⟨r', hr', hlives⟩
    · left
      cases hnew : t.hub.reservations.get? token with
      | none => rfl
      | some r' => exact absurd (hs.reserved hn hf hlinked hgone hnew).1 hlast
    · rcases hs.proceeds hn hf hlinked hr' hlast with ⟨r'', hr'', hp⟩ | ⟨hnone, _⟩
      · exact Or.inr ⟨r'', hr'', hlives.proceed hp⟩
      · exact Or.inl hnone

/-- Let no token be given out twice. What one reservation has become later, it has become by the
ways of its life; behind its end it is the same to the deadline, and between its allocation and
its end it has the same place. With a further turn it goes at most one way more, or it disappears:
the turn cancels it, or makes a pass that finds it at its end with its deadline passed. A
reservation that is new then has the token of that turn's request and has gone at most one way. -/
theorem Course.reservation_life {later : List Turn} {u : Station} {r₀ r : Reservation}
    (h : Station.start settings directory = .ok start) (hc : Course start turns s)
    (hl : Course s later t) (hs : Step t turn u)
    (hfresh : ((turns ++ later ++ [turn]).filterMap Turn.reserved).Nodup)
    (hr₀ : s.hub.reservations.get? token = some r₀)
    (hr : t.hub.reservations.get? token = some r) :
    r₀.Lives r ∧
    ((∃ r', u.hub.reservations.get? token = some r' ∧ r.Proceeds r') ∨
      u.hub.reservations.get? token = none ∧
        (turn.Cancels t.hub r ∨ t.hub.Deletes turn.now u.hub.reservations token r)) ∧
    ∀ token' r', t.hub.reservations.get? token' = none →
      u.hub.reservations.get? token' = some r' → turn.reserved = some token' ∧
        (r'.state = .waiting ∨ ReservationState.waiting.leadsTo r'.state = true) := by
  have hcl := hc.trans hl
  obtain ⟨hn, hf⟩ := hcl.filed h
  have hlinked := hcl.linked h
  -- the token was given out before, so none of the later turns gives it out
  have hgiven := hc.token_mem h hr₀
  have hnot : ∀ turn' ∈ later ++ [turn], turn'.reserved ≠ some token := by
    intro turn' ht he
    rw [List.append_assoc, List.filterMap_append, List.nodup_append] at hfresh
    exact hfresh.2.2 token hgiven token (List.mem_filterMap.mpr ⟨turn', ht, he⟩) rfl
  refine ⟨?_, ?_, fun token' r' hnone hr' => hs.reserved hn hf hlinked hnone hr'⟩
  · have hlater := hc.lives h hl hr₀ (fun turn' ht => hnot turn' (List.mem_append_left _ ht))
    rcases hlater with hnone | ⟨r', hr', hlives⟩
    · rw [hnone] at hr
      cases hr
    · rw [hr] at hr'
      cases hr'
      exact hlives
  · exact hs.proceeds hn hf hlinked hr (hnot turn (by simp))

/-- The small laboratory before the place is acquired. -/
def reserved : Station := (empty.play (labScenes.take 9)).2

/-- In the small laboratory the reservation of the board is allocated, and it is acquired, with the
same place, by the turn in which its owner acquires the board. -/
theorem reservation_life_lab :
    ∃ r r', reserved.hub.reservations.get? (Identifier.ofNat .reservation 3) = some r ∧
      lab.hub.reservations.get? (Identifier.ofNat .reservation 3) = some r' ∧
      r.state = .allocated ∧ r'.state = .acquired ∧ r'.allocations = r.allocations := by
  have hstart : Station.start ⟨1000, 1000⟩ none = .ok empty := rfl
  let scene : Scene := labScenes.getLastD ⟨0, .schedule, []⟩
  let u : Station :=
    { reserved with hub := (reserved.operate scripted scene.waits scene.now scene.operation).hub }
  have hstep : Step reserved ⟨scene.now, some scene.operation,
      (reserved.operate scripted scene.waits scene.now scene.operation).attempts⟩ u :=
    .operate scripted scene.waits scene.now scene.operation
  have hstates : (reserved.hub.reservations.get? (Identifier.ofNat .reservation 3)).map
      Reservation.state = some .allocated := by decide +kernel
  have hstates' : (u.hub.reservations.get? (Identifier.ofNat .reservation 3)).map
      Reservation.state = some .acquired := by decide +kernel
  have hsame : lab.hub.reservations = u.hub.reservations := by decide +kernel
  obtain ⟨r, hr, hstate⟩ := Option.map_eq_some_iff.mp hstates
  obtain ⟨r', hr', hstate'⟩ := Option.map_eq_some_iff.mp hstates'
  have hlife := (Course.reservation_life hstart (course_play empty (labScenes.take 9)) .start hstep
    (by decide +kernel) hr hr).2.1
  rw [hsame]
  refine ⟨r, r', hr, hr', hstate, hstate', ?_⟩
  rcases hlife with ⟨r'', hr'', hp⟩ | ⟨hnone, _⟩
  · rw [hr'] at hr''
    cases hr''
    exact hp.place (by rw [hstate]; rfl) (by rw [hstate']; rfl)
  · rw [hr'] at hnone
    cases hnone

end Station

end BoardFarm
