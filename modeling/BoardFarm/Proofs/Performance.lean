import BoardFarm.Proofs.Writes

/-!
# Operations are passages

An operation reads the hub, may wait for answers to commands, and then changes places and
reservations. What it has read of places and reservations still holds after the wait, because
events leave them alone.

* `Run.command_spec`: one command.
* `Run.acquireAll_spec`: all handles of a list are acquired, in order, or the result is an error.
* `Run.perform_passes`: every operation is a passage.
-/

namespace BoardFarm

/-- Whether failed releases of an operation are told to clients. -/
def Operation.tells : Operation → Bool
  | .synchronize _ => false
  | _ => true

namespace Run

variable {ω : Type} {react : Surroundings ω} {o : Occasion} {tells : Bool}

/-- The hub of a run has gone through exchanges, and their commands are noted. -/
def Exchanges (tells : Bool) (r r' : Run ω) : Prop :=
  ∃ l, r'.attempts = r.attempts ++ l ∧ Hub.Exchange tells r.hub l r'.hub

/-- The hub of a run has gone through a passage, and its commands are noted. -/
def Passes (o : Occasion) (tells : Bool) (r r' : Run ω) : Prop :=
  ∃ l, r'.attempts = r.attempts ++ l ∧ Hub.Passage o tells r.hub l r'.hub

theorem Exchanges.refl (r : Run ω) : Exchanges tells r r := ⟨[], by simp, .refl⟩

theorem Exchanges.trans {r r₁ r₂ : Run ω} (h : Exchanges tells r r₁)
    (h' : Exchanges tells r₁ r₂) : Exchanges tells r r₂ := by
  obtain ⟨l, hl, hx⟩ := h
  obtain ⟨l', hl', hx'⟩ := h'
  refine ⟨l ++ l', ?_, hx.trans hx'⟩
  rw [hl', hl, List.append_assoc]

theorem Exchanges.passes {r r' : Run ω} (h : Exchanges tells r r') : Passes o tells r r' := by
  obtain ⟨l, hl, hx⟩ := h
  exact ⟨l, hl, hx.passage⟩

theorem Passes.refl (r : Run ω) : Passes o tells r r := ⟨[], by simp, .refl⟩

theorem Passes.trans {r r₁ r₂ : Run ω} (h : Passes o tells r r₁)
    (h' : Passes o tells r₁ r₂) : Passes o tells r r₂ := by
  obtain ⟨l, hl, hp⟩ := h
  obtain ⟨l', hl', hp'⟩ := h'
  refine ⟨l ++ l', ?_, hp.trans hp'⟩
  rw [hl', hl, List.append_assoc]

theorem passes_modify {r : Run ω} {f : Hub → Hub}
    (h : Hub.Passage o tells r.hub [] (f r.hub)) : Passes o tells r (r.modify f) :=
  ⟨[], by simp [modify], h⟩

/-! ## Commands -/

theorem exchange_applyAll {hub : Hub} (events : List Event) :
    Hub.Exchange tells hub [] (hub.applyAll events) := by
  unfold Hub.applyAll
  refine List.foldlRecOn _ _ (motive := Hub.Exchange tells hub []) .refl ?_
  exact fun hub₁ h₁ e _ => h₁.stir (.event e)

theorem exchange_spec (react : Surroundings ω) (tells : Bool) (r : Run ω) (id : Nat) (c : Command) :
    (r.exchange react id c).2.attempts = r.attempts ∧
      Hub.Exchange tells r.hub [] (r.exchange react id c).2.hub := by
  refine ⟨rfl, ?_⟩
  have hsubmit : Hub.Exchange tells r.hub [] (withChannel r.hub id (fun ch => ch.submit c)) :=
    Hub.Exchange.refl.stir (.channel id _)
  have hwait := hsubmit.trans (exchange_applyAll
    (react (withChannel r.hub id (fun ch => ch.submit c)) r.around).1)
  exact hwait.stir (.channel id (fun ch => ch.abandon (nextCommand r.hub id)))

/-- A command is tried once, and a confirmed holder is noted at once. -/
theorem command_spec (react : Surroundings ω) (tells : Bool) (r : Run ω) (h : Handle)
    (place : Option String) :
    ∃ a : Attempt, a.handle = h ∧ a.place = place ∧ a.outcome = (r.command react h place).1 ∧
      Hub.Exchange tells r.hub [] a.hub ∧
      (r.command react h place).2.attempts = r.attempts ++ [a] ∧
      (r.command react h place).2.hub = a.settled false := by
  unfold command
  split
  · exact ⟨_, rfl, rfl, rfl, .refl, rfl, rfl⟩
  · rename_i id _
    obtain ⟨hattempts, hx⟩ := exchange_spec react tells r id ⟨h.path.group, h.path.name, place⟩
    generalize r.exchange react id ⟨h.path.group, h.path.name, place⟩ = e at hattempts hx
    obtain ⟨o, r'⟩ := e
    refine ⟨⟨h, place, true, o, r'.hub⟩, rfl, rfl, rfl, hx, ?_, ?_⟩
    · cases o <;> exact congrArg (· ++ _) hattempts
    · cases o <;> rfl

theorem settled_of_untold {a : Attempt} (hq : a.place.isSome ∨ tells = false) :
    a.settled false = a.settled tells := by
  unfold Attempt.settled
  rcases hq with hq | hq
  · have hnone : a.place.isNone = false := by simpa using hq
    simp [hnone]
  · rw [hq]

/-- Where nothing is to be told after a failure, a command is an exchange. -/
theorem command_exchanges (r : Run ω) (h : Handle) {place : Option String}
    (hq : place.isSome ∨ tells = false) :
    Exchanges tells r (r.command react h place).2 := by
  obtain ⟨a, _, hplace, _, hx, hattempts, hhub⟩ :=
    command_spec react tells r h place
  refine ⟨[] ++ [a], by simpa using hattempts, ?_⟩
  rw [hhub, settled_of_untold (hplace ▸ hq)]
  exact hx.settle

theorem release_spec (react : Surroundings ω) (r : Run ω) (h : Handle) :
    ∃ a : Attempt, a.handle = h ∧ a.place = none ∧ Hub.Exchange true r.hub [] a.hub ∧
      (release react r h).attempts = r.attempts ++ [a] ∧
      (release react r h).hub = a.settled true := by
  obtain ⟨a, hhandle, hplace, houtcome, hx, hattempts, hhub⟩ :=
    command_spec react true r h none
  refine ⟨a, hhandle, hplace, hx, ?_, ?_⟩
  · unfold release
    dsimp only
    split
    · exact hattempts
    · exact hattempts
  · cases ho : (r.command react h none).1 with
    | done => simp [release, ho, hhub, Attempt.settled, houtcome]
    | failed cause => simp [release, ho, modify, hhub, Attempt.settled, houtcome, hplace, hhandle]

theorem release_exchanges (r : Run ω) (h : Handle) : Exchanges true r (release react r h) := by
  obtain ⟨a, _, _, hx, hattempts, hhub⟩ := release_spec react r h
  refine ⟨[] ++ [a], by simpa using hattempts, ?_⟩
  rw [hhub]
  exact hx.settle

theorem exchanges_foldl {f : Run ω → Handle → Run ω} (hf : ∀ r h, Exchanges tells r (f r h))
    (l : List Handle) (r : Run ω) : Exchanges tells r (l.foldl f r) := by
  refine List.foldlRecOn _ _ (motive := Exchanges tells r) (.refl r) ?_
  exact fun r₁ h₁ h _ => h₁.trans (hf r₁ h)

theorem acquireEach_spec (react : Surroundings ω) (name : String)
    (handles acquired : List Handle) (r : Run ω) :
    Exchanges true r (acquireEach react name handles acquired r).2 ∧
      ∀ l, (acquireEach react name handles acquired r).1 = .ok l → l = acquired ++ handles := by
  induction handles generalizing acquired r with
  | nil =>
    refine ⟨.refl r, ?_⟩
    intro l hl
    cases hl
    simp
  | cons h rest ih =>
    have hc : Exchanges true r (r.command react h (some name)).2 :=
      command_exchanges r h (Or.inl rfl)
    unfold acquireEach
    dsimp only
    split
    · obtain ⟨hx, hl⟩ := ih (acquired ++ [h]) (r.command react h (some name)).2
      refine ⟨hc.trans hx, ?_⟩
      intro l hr
      rw [hl l hr]
      simp
    · refine ⟨hc.trans (exchanges_foldl release_exchanges _ _), ?_⟩
      intro l hl
      cases hl

/-- All handles are acquired, or the result is an error. Nothing stands in their way then. -/
theorem acquireAll_spec (react : Surroundings ω) (name : String) (handles : List Handle)
    (r : Run ω) :
    Exchanges true r (acquireAll react name handles r).2 ∧
      ∀ l, (acquireAll react name handles r).1 = .ok l →
        l = handles ∧ ∀ h ∈ handles, r.hub.obstacle name h = none := by
  unfold acquireAll
  split
  · refine ⟨.refl r, ?_⟩
    intro l hl
    cases hl
  · rename_i hnone
    obtain ⟨hx, hl⟩ := acquireEach_spec react name handles [] r
    refine ⟨hx, ?_⟩
    intro l hr
    refine ⟨by simpa using hl l hr, ?_⟩
    simpa using hnone

theorem releaseEach_exchanges (react : Surroundings ω) (handles : List Handle) (r : Run ω) :
    Exchanges true r (releaseEach react handles r) := by
  apply exchanges_foldl
  intro r h
  split
  · exact .refl r
  · exact release_exchanges r h

/-! ## Acquisition and release -/

theorem otherHolder_of_obstacle {hub : Hub} {name : String} {h : Handle}
    (ho : hub.obstacle name h = none) : hub.otherHolder name h.path = none := by
  unfold Hub.obstacle at ho
  split at ho
  · cases ho
  · assumption

theorem otherHolder_quiet {hub hub' : Hub} (hq : Hub.Quiet hub hub') (name : String)
    (path : ResourcePath) : hub'.otherHolder name path = hub.otherHolder name path := by
  unfold Hub.otherHolder
  rw [hq.places]

theorem acquisitionError_quiet {hub hub' : Hub} (hq : Hub.Quiet hub hub') (p : Place)
    (principal : String) :
    acquisitionError hub' p principal = acquisitionError hub p principal := by
  unfold acquisitionError
  rw [hq.reservations]

/-- The published handles that a place claims have different paths if all published handles
have. -/
theorem nodup_claimed {hub : Hub} (hd : (hub.published.map Handle.path).Nodup) (p : Place) :
    ((hub.claimed p).map Handle.path).Nodup := by
  unfold Hub.claimed
  rw [((perm_stableSort _ _).map Handle.path).nodup_iff]
  exact hd.sublist (List.filter_sublist.map _)

theorem published_of_mem_claimed {hub : Hub} {p : Place} {h : Handle} (hh : h ∈ hub.claimed p) :
    h ∈ hub.published := by
  unfold Hub.claimed at hh
  rw [mem_stableSort] at hh
  exact (List.mem_filter.mp hh).1

theorem acquirePlace_passes {name principal : String} {r : Run ω} (hstart : r.hub = o.hub)
    (hd : (r.hub.published.map Handle.path).Nodup) :
    Passes o true r (acquirePlace react o.now name principal r).2 := by
  unfold acquirePlace
  split
  · exact .refl r
  · rename_i p hp
    split
    · exact .refl r
    · rename_i hallowed
      obtain ⟨hx, hok⟩ := acquireAll_spec react name (r.hub.claimed p) r
      split
      · rename_i hr
        rw [hr] at hx
        exact hx.passes
      · rename_i handles r' hr
        rw [hr] at hx hok
        obtain ⟨rfl, hfree⟩ := hok handles rfl
        obtain ⟨l, _, hl⟩ := id hx
        have hreservations : r'.hub.reservations = o.hub.reservations := by
          rw [hl.quiet.reservations, hstart]
        refine hx.passes.trans (passes_modify (Hub.Move.passage ?_ (Or.inl hreservations)))
        refine .acquire (p := p) ?_ ?_ (nodup_claimed hd p) ?_ ?_
        · rw [hl.quiet.places]
          exact hp
        · rw [acquisitionError_quiet hl.quiet]
          exact hallowed
        · intro h hh
          rw [otherHolder_quiet hl.quiet]
          exact otherHolder_of_obstacle (hfree h hh)
        · intro h hh
          rw [← hstart]
          exact published_of_mem_claimed hh

theorem releasePlace_passes {name : String} {user : Option String} {r : Run ω}
    (hstart : r.hub = o.hub) : Passes o true r (releasePlace react o.now name user r).2 := by
  unfold releasePlace
  split
  · exact .refl r
  · rename_i p hp
    split
    · exact .refl r
    · split
      · exact .refl r
      · have hx := releaseEach_exchanges react p.held r
        obtain ⟨l, _, hl⟩ := id hx
        have hreservations : (releaseEach react p.held r).hub.reservations =
            o.hub.reservations := by
          rw [hl.quiet.reservations, hstart]
        refine hx.passes.trans (passes_modify (Hub.Move.passage ?_ (Or.inl hreservations)))
        refine .release (p := p) ?_
        rw [hl.quiet.places]
        exact hp

theorem attachTarget_spec {hub : Hub} {h : Handle} {p : Place}
    (ht : hub.attachTarget h = some p) :
    p ∈ hub.places.values ∧ p.acquired.isSome ∧ p.holdsPath h.path = false := by
  unfold Hub.attachTarget at ht
  split at ht
  · rename_i q hq
    split at ht
    · cases ht
    · rename_i hfree
      cases ht
      have hmem : p ∈ hub.claimants h.path := by
        rw [hq]
        exact List.mem_cons_self ..
      obtain ⟨hp, hc⟩ := List.mem_filter.mp hmem
      refine ⟨hp, ?_, ?_⟩
      · simp only [Bool.and_eq_true] at hc
        exact hc.1
      · simp only [Bool.or_eq_true, not_or, Bool.not_eq_true] at hfree
        exact hfree.2
  · cases ht

theorem addDefaultPlace_passage {hub : Hub} {link : Nat} {h : Handle}
    (hop : o.operation = .followUp link) (hwork : o.hub.nextWork link = some (.added h))
    (hplaces : hub.places = o.hub.places) (hreservations : hub.reservations = o.hub.reservations) :
    Hub.Passage o tells hub [] (hub.addDefaultPlace o.now h.path.group) := by
  unfold Hub.addDefaultPlace
  split
  · rename_i hc
    simp only [Bool.and_eq_true, Bool.not_eq_true'] at hc
    split
    · exact .refl
    · rename_i m hm
      have hmove := Hub.Move.addDefault hop hwork hplaces hc.1 hc.2 hm
      exact hmove.passage (Or.inl hreservations)
  · exact .refl

theorem reservations_attach (hub : Hub) (now : Nat) (name : String) (h : Handle) :
    (hub.attach now name h).reservations = hub.reservations := by
  unfold Hub.attach
  split <;> rfl

theorem resourceAdded_passes {link : Nat} {h : Handle} {r : Run ω} (hn : r.hub.Named)
    (hop : o.operation = .followUp link) (hwork : o.hub.nextWork link = some (.added h))
    (hplaces : r.hub.places = o.hub.places)
    (hreservations : r.hub.reservations = o.hub.reservations) :
    Passes o true r (resourceAdded react o.now h r) := by
  have hadd : Hub.Passage o true r.hub [] (r.hub.addDefaultPlace o.now h.path.group) :=
    addDefaultPlace_passage hop hwork hplaces hreservations
  have hd : Passes o true r (r.modify (fun hub => hub.addDefaultPlace o.now h.path.group)) :=
    passes_modify hadd
  have hn₁ : (r.modify (fun hub => hub.addDefaultPlace o.now h.path.group)).hub.Named :=
    hadd.named hn
  unfold resourceAdded
  dsimp only
  refine hd.trans ?_
  generalize r.modify (fun hub => hub.addDefaultPlace o.now h.path.group) = r₁ at hn₁
  split
  · exact .refl _
  · rename_i p ht
    obtain ⟨hmem, hheld, hnew⟩ := attachTarget_spec ht
    obtain ⟨hx, hok⟩ := acquireAll_spec react p.name [h] r₁
    split
    · rename_i hr
      rw [hr] at hx
      exact hx.passes
    · rename_i handles r' hr
      rw [hr] at hx hok
      obtain ⟨_, hfree⟩ := hok handles rfl
      have hsame := reservations_attach r'.hub o.now p.name h
      refine hx.passes.trans (passes_modify (Hub.Move.passage ?_ (Or.inr hsame)))
      obtain ⟨l, _, hl⟩ := hx
      refine .attach (p := p) ?_ hheld hnew ?_ hwork
      · rw [hl.quiet.places]
        exact hn₁.get?_name hmem
      · rw [otherHolder_quiet hl.quiet]
        exact otherHolder_of_obstacle (hfree h (List.mem_cons_self ..))

theorem reservations_publishHolders (hub : Hub) (h : Handle) :
    (hub.publishHolders h).reservations = hub.reservations := by
  obtain ⟨clients, he⟩ := Hub.publishHolders_eq hub h
  rw [he]

theorem nextFollowUp_passes {link : Nat} {r : Run ω} (hn : r.hub.Named) (hstart : r.hub = o.hub)
    (hop : o.operation = .followUp link) :
    Passes o true r (nextFollowUp react o.now link r) := by
  unfold nextFollowUp
  split
  · exact .refl r
  · rename_i f hfirst
    have hw : Passes o true r (r.modify (fun hub =>
        { hub with followUps := hub.followUps.eraseP (fun e => e.1 == link) })) :=
      passes_modify (Hub.Exchange.passage (.stir .refl (.work List.eraseP_sublist)))
    dsimp only
    refine hw.trans ?_
    unfold followUp
    split
    · rename_i h
      have hwork : o.hub.nextWork link = some (.added h) := by
        rw [← hstart]
        unfold Hub.nextWork
        rw [hfirst]
        rfl
      refine resourceAdded_passes (r := r.modify _) hn hop hwork ?_ ?_ <;> rw [← hstart] <;> rfl
    · have hsame := reservations_publishHolders (r.modify (fun hub =>
        { hub with followUps := hub.followUps.eraseP (fun e => e.1 == link) })).hub
      exact passes_modify (Hub.Move.passage (.republish _) (Or.inr (hsame _)))

/-! ## Requests -/

theorem change_passes {r : Run ω} {e : Except RequestError Hub}
    (h : ∀ hub', e = .ok hub' → Hub.Passage o tells r.hub [] hub') :
    Passes o tells r (r.change e).2 := by
  cases e with
  | error cause => exact .refl r
  | ok hub' => exact ⟨[], by simp [change], h hub' rfl⟩

theorem answer_passes {r : Run ω} {e : Except RequestError (Reservation × Hub)}
    (h : ∀ reservation hub', e = .ok (reservation, hub') →
      Hub.Passage o tells r.hub [] hub') : Passes o tells r (r.answer e).2 := by
  cases e with
  | error cause => exact .refl r
  | ok answer => exact ⟨[], by simp [Run.answer], h answer.1 answer.2 rfl⟩

theorem withPrincipal_passes {r : Run ω} {address : Option String}
    {serve : String → Except RequestError Reply × Run ω}
    (h : ∀ user, Passes o tells r (serve user).2) :
    Passes o tells r (r.withPrincipal address serve).2 := by
  unfold withPrincipal
  split
  · exact .refl r
  · exact h _

end Run

namespace Hub

variable {o : Occasion} {hub hub' : Hub} {name : String}

theorem updatePlace_ok {now : Nat} {f : Place → Except RequestError Place}
    (h : hub.updatePlace now name f = .ok hub') :
    ∃ p p', hub.places.get? name = some p ∧ f p = .ok p' ∧
      hub' = (hub.storePlace (p'.touch now)).markDirty := by
  unfold updatePlace at h
  split at h
  · cases h
  · rename_i p hp
    split at h
    · cases h
    · rename_i p' hf
      cases h
      exact ⟨p, p', hp, hf, rfl⟩

/-- An edit of a place is stored. -/
def Edited (now : Nat) (hub : Hub) (name : String) (hub' : Hub) : Prop :=
  ∃ p q, hub.places.get? name = some p ∧ Edit hub p q ∧
    hub' = (hub.storePlace (q.touch now)).markDirty

theorem Edited.move (h : Edited o.now hub name hub') : Move o hub hub' := by
  obtain ⟨p, q, hp, he, rfl⟩ := h
  exact .edit hp he

section Requests

variable {now : Nat}

theorem edited_updatePlace {f : Place → Except RequestError Place}
    (h : hub.updatePlace now name f = .ok hub') (he : ∀ p q, f p = .ok q → Edit hub p q) :
    Edited now hub name hub' := by
  obtain ⟨p, q, hp, hf, rfl⟩ := updatePlace_ok h
  exact ⟨p, q, hp, he p q hf, rfl⟩

theorem addPlace_ok (h : hub.addPlace now name = .ok hub') :
    name ≠ "" ∧ hub.places.contains name = false ∧ hub.ownerOfAlias name = none ∧
      hub' = ((hub.storePlace (Place.new name now)).markDirty).schedule now := by
  unfold addPlace at h
  split at h
  · cases h
  · rename_i hname
    split at h
    · cases h
    · rename_i hfresh
      split at h
      · cases h
      · rename_i hunused
        cases h
        exact ⟨by simpa using hname, by simpa using hfresh, hunused, rfl⟩

theorem deletePlace_ok (h : hub.deletePlace now name = .ok hub') :
    hub' = (({ hub with places := hub.places.erase name }.tellPlaces
      (.deletedPlace name)).markDirty).schedule now := by
  unfold deletePlace at h
  split at h
  · cases h
    rfl
  · cases h

theorem edited_addAlias {other : String} (h : hub.addAlias now name other = .ok hub') :
    Edited now hub name hub' := by
  unfold addAlias at h
  split at h
  · cases h
  · split at h
    · cases h
    · rename_i hfresh
      split at h
      · cases h
      · rename_i hunused
        refine edited_updatePlace h ?_
        intro p q hf
        cases hf
        exact .addAlias other (by simpa using hfresh) hunused

theorem edited_deleteAlias {other : String} (h : hub.deleteAlias now name other = .ok hub') :
    Edited now hub name hub' := by
  refine edited_updatePlace h ?_
  intro p q hf
  split at hf
  · cases hf
    exact .deleteAlias other
  · cases hf

theorem setTags_ok {tags : SortedMap String String} (h : hub.setTags now name tags = .ok hub') :
    Tag.checkAll tags.toList = .ok () ∧ ∃ p, hub.places.get? name = some p ∧
      hub' = ((hub.storePlace ({ p with tags := Place.setTags p.tags tags.toList }.touch
        now)).markDirty).schedule now := by
  unfold setTags at h
  split at h
  · cases h
  · rename_i htags
    cases hu : hub.updatePlace now name (fun p =>
        .ok { p with tags := Place.setTags p.tags tags.toList }) with
    | error e =>
      rw [hu] at h
      cases h
    | ok hub₁ =>
      rw [hu] at h
      cases h
      obtain ⟨p, q, hp, hf, rfl⟩ := updatePlace_ok hu
      cases hf
      exact ⟨htags, p, hp, rfl⟩

theorem edited_setComment {comment : String} (h : hub.setComment now name comment = .ok hub') :
    Edited now hub name hub' := by
  refine edited_updatePlace h ?_
  intro p q hf
  cases hf
  exact .setComment comment

theorem edited_addMatch {pattern : String} {rename : Option String}
    (h : hub.addMatch now name pattern rename = .ok hub') : Edited now hub name hub' := by
  unfold addMatch at h
  split at h
  · cases h
  · rename_i m hm
    refine edited_updatePlace h ?_
    intro p q hf
    split at hf
    · cases hf
    · cases hf
      exact .addPattern hm

theorem edited_deleteMatch {pattern : String} {rename : Option String}
    (h : hub.deleteMatch now name pattern rename = .ok hub') : Edited now hub name hub' := by
  unfold deleteMatch at h
  split at h
  · cases h
  · refine edited_updatePlace h ?_
    intro p q hf
    split at hf
    · cases hf
      exact .deletePattern _
    · cases hf

theorem edited_allow {principal user : String} (h : hub.allow now name principal user = .ok hub') :
    Edited now hub name hub' := by
  unfold Hub.allow at h
  split at h
  · cases h
  · refine edited_updatePlace h ?_
    intro p q hf
    split at hf
    · cases hf
    · rename_i owner hheld
      split at hf
      · cases hf
        exact .allow user hheld
      · cases hf

theorem reserve_ok {token : Token} {owner : String} {filters : Filters} {prio : Double}
    {r : Reservation} (h : hub.reserve now token owner filters prio = .ok (r, hub')) :
    hub' = { hub with
      reservations := hub.reservations.insert token
        (Reservation.new token owner filters prio now hub.settings.reservationTimeout)
      }.schedule now := by
  unfold Hub.reserve at h
  split at h
  · cases h
  · split at h
    · cases h
    · cases h
      rfl

theorem cancel_ok {text : String} (h : hub.cancel now text = .ok hub') :
    ∃ r, hub.findReservation text = .ok r ∧
      hub' = { hub with reservations := hub.reservations.erase r.token }.schedule now := by
  unfold Hub.cancel at h
  split at h
  · cases h
  · rename_i r hr
    cases h
    exact ⟨r, hr, rfl⟩

/-- A reservation is found under the token that is read from the text. -/
theorem findReservation_eq_ok_iff {text : String} {r : Reservation} :
    hub.findReservation text = .ok r ↔
      ∃ token, readToken text = .ok token ∧ hub.reservations.get? token = some r := by
  unfold findReservation
  cases readToken text with
  | error e => simp
  | ok token =>
    simp only [Except.ok.injEq, exists_eq_left']
    cases hub.reservations.get? token with
    | none => simp
    | some r' => simp

theorem poll_ok {text : String} {r : Reservation} (h : hub.poll now text = .ok (r, hub')) :
    hub' = hub ∨ ∃ token r, hub.reservations.get? token = some r ∧ r.state.isTerminal = false ∧
      hub' = { hub with
        reservations := hub.reservations.insert r.token
          (r.refresh now hub.settings.reservationTimeout) } := by
  unfold Hub.poll at h
  split at h
  · cases h
  · rename_i r₁ hr
    obtain ⟨token, _, ht⟩ := findReservation_eq_ok_iff.mp hr
    split at h
    · cases h
      exact Or.inl rfl
    · rename_i hlive
      cases h
      exact Or.inr ⟨token, r₁, ht, by simpa using hlive, rfl⟩

end Requests

theorem move_addPlace (h : hub.addPlace o.now name = .ok hub') : Move o hub hub' := by
  obtain ⟨_, hfresh, hunused, rfl⟩ := addPlace_ok h
  exact .add hfresh hunused

theorem move_deletePlace {token : Token} {address : Option String}
    (hop : o.operation = .request token address (.deletePlace name))
    (h : hub.deletePlace o.now name = .ok hub') : Move o hub hub' := by
  rw [deletePlace_ok h]
  exact .delete name hop

theorem move_setTags {tags : SortedMap String String}
    (hfirst : hub.reservations = o.hub.reservations)
    (h : hub.setTags o.now name tags = .ok hub') : Move o hub hub' := by
  obtain ⟨htags, p, hp, rfl⟩ := setTags_ok h
  exact .retag hp htags hfirst

theorem move_reserve {token : Token} {address : Option String} {owner : String}
    {filters : Filters} {prio : Double} {r : Reservation}
    (hop : o.operation = .request token address (.reserve filters prio))
    (h : hub.reserve o.now token owner filters prio = .ok (r, hub')) : Move o hub hub' := by
  rw [reserve_ok h]
  exact .reserve hop owner

theorem move_cancel {token : Token} {address : Option String} {text : String}
    (hop : o.operation = .request token address (.cancel text))
    (h : hub.cancel o.now text = .ok hub') : Move o hub hub' := by
  obtain ⟨r, hr, rfl⟩ := cancel_ok h
  exact .cancel hop hr

theorem passage_poll {tells : Bool} {text : String} {r : Reservation}
    (hreservations : hub.reservations = o.hub.reservations)
    (h : hub.poll o.now text = .ok (r, hub')) : Passage o tells hub [] hub' := by
  rcases poll_ok h with rfl | ⟨token, r, hr, hlive, rfl⟩
  · exact .refl
  · exact (Move.poll hr hlive).passage (Or.inl hreservations)

end Hub

namespace Run

variable {ω : Type} {react : Surroundings ω} {o : Occasion}

theorem serve_passes {token : Token} {address : Option String} {request : Request} {r : Run ω}
    (hd : (r.hub.published.map Handle.path).Nodup) (hstart : r.hub = o.hub)
    (hop : o.operation = .request token address request) :
    Passes o true r (r.serve react o.now token address request).2 := by
  have hsame : r.hub.reservations = o.hub.reservations := by rw [hstart]
  have hmove : ∀ {hub'}, Hub.Move o r.hub hub' → Hub.Passage o true r.hub [] hub' :=
    fun h => h.passage (Or.inl hsame)
  cases request with
  | addPlace name => exact change_passes (fun _ h => hmove (Hub.move_addPlace h))
  | deletePlace name => exact change_passes (fun _ h => hmove (Hub.move_deletePlace hop h))
  | addAlias place other => exact change_passes (fun _ h => hmove (Hub.edited_addAlias h).move)
  | deleteAlias place other =>
    exact change_passes (fun _ h => hmove (Hub.edited_deleteAlias h).move)
  | setTags place tags => exact change_passes (fun _ h => hmove (Hub.move_setTags hsame h))
  | setComment place comment =>
    exact change_passes (fun _ h => hmove (Hub.edited_setComment h).move)
  | addMatch place pattern rename =>
    exact change_passes (fun _ h => hmove (Hub.edited_addMatch h).move)
  | deleteMatch place pattern rename =>
    exact change_passes (fun _ h => hmove (Hub.edited_deleteMatch h).move)
  | acquire place => exact withPrincipal_passes (fun _ => acquirePlace_passes hstart hd)
  | release place user => exact releasePlace_passes hstart
  | allow place user =>
    exact withPrincipal_passes (fun _ => change_passes (fun _ h => hmove (Hub.edited_allow h).move))
  | reserve filters prio =>
    exact withPrincipal_passes (fun _ =>
      answer_passes (fun _ _ h => hmove (Hub.move_reserve hop h)))
  | cancel text => exact change_passes (fun _ h => hmove (Hub.move_cancel hop h))
  | poll text => exact answer_passes (fun _ _ h => Hub.passage_poll hsame h)

theorem hearClient_passage {tells : Bool} (hub : Hub) (id : Nat) (m : ClientRequest) :
    Hub.Passage o tells hub [] (hub.hearClient id m) := by
  cases m with
  | startup name version =>
    exact Hub.Exchange.passage (.stir .refl (.event (.clientStarts id name version)))
  | sync n => exact Hub.Exchange.passage (.stir .refl (.event (.clientSyncs id n)))
  | subscribe places resources =>
    have hfollow : ∀ (mid : Hub) (enable : Bool),
        Hub.Passage o tells mid [] (mid.followResources id enable) := fun mid enable =>
      Hub.Exchange.passage (.stir .refl (.event (.clientFollowsResources id enable)))
    cases places with
    | some first =>
      have hfirst : Hub.Passage o tells hub [] (hub.followPlaces id first) :=
        (Hub.Move.subscribe id first).passage (Or.inr rfl)
      cases resources with
      | some enable => exact hfirst.trans (hfollow _ enable)
      | none => exact hfirst
    | none =>
      cases resources with
      | some enable => exact hfollow hub enable
      | none => exact .refl
  | blank => exact .refl

/-! ## Reconciliation -/

section Reconciliation

variable {readings : List Nat} (hop : o.operation = .synchronize readings)
include hop

theorem noteOutcome_passage (hub : Hub) (now : Nat) (path : ResourcePath) (outcome : Outcome) :
    Hub.Passage o false hub [] (hub.noteOutcome now path outcome) := by
  cases outcome with
  | done => exact (Hub.Move.retries _ hop).passage (Or.inr rfl)
  | failed cause => exact (Hub.Move.retries _ hop).passage (Or.inr rfl)

theorem syncCommand_passes (react : Surroundings ω)
    (published : SortedMap ResourcePath Handle) (s : SyncState ω) (path : ResourcePath)
    (place : Option String) :
    Passes o false s.run (s.command react published path place).2.run := by
  unfold SyncState.command
  split
  · exact .refl _
  · rename_i h _
    split
    · exact .refl _
    · have hc : Exchanges false s.run (s.run.command react h place).2 :=
        command_exchanges s.run h (Or.inr rfl)
      exact hc.passes.trans (passes_modify (noteOutcome_passage hop _ _ _ _))

theorem releaseStray_passes (react : Surroundings ω)
    (published : SortedMap ResourcePath Handle) (s : SyncState ω) (path : ResourcePath) :
    Passes o false s.run (s.releaseStray react published path).run := by
  have hc := syncCommand_passes hop react published s path none
  unfold SyncState.releaseStray
  split <;> rename_i hr <;> rw [hr] at hc <;> exact hc

theorem acquireLost_passes (react : Surroundings ω)
    (published : SortedMap ResourcePath Handle) (s : SyncState ω) (e : ResourcePath × String) :
    Passes o false s.run (s.acquireLost react published e).run := by
  have hc := syncCommand_passes hop react published s e.1 (some e.2)
  unfold SyncState.acquireLost
  split <;> rename_i hr <;> rw [hr] at hc <;> exact hc

end Reconciliation

theorem reservations_replaceHeld {hub hub' : Hub} {now : Nat} {name : String} {h : Handle}
    (hr : hub.replaceHeld now name h = some hub') : hub'.reservations = hub.reservations := by
  obtain ⟨_, _, _, _, rfl⟩ := Hub.replaceHeld_eq_some hr
  rfl

theorem replaceOrphan_passes {published : SortedMap ResourcePath Handle}
    (hpublished : ∀ path h, published.get? path = some h → h ∈ o.hub.published)
    (s : SyncState ω) (e : ResourcePath × String) :
    Passes o false s.run (s.replaceOrphan published o.now e).run := by
  unfold SyncState.replaceOrphan
  split
  · exact .refl _
  · split
    · exact .refl _
    · rename_i hget
      split
      · exact .refl _
      · rename_i hr
        have hmove := Hub.Move.replace hr (hpublished _ _ hget)
        exact ⟨[], by simp, hmove.passage (Or.inr (reservations_replaceHeld hr))⟩

theorem passes_foldl {α : Type} {f : SyncState ω → α → SyncState ω}
    (hf : ∀ s a, Passes o false s.run (f s a).run) (l : List α) (s : SyncState ω) :
    Passes o false s.run (l.foldl f s).run := by
  refine List.foldlRecOn _ _ (motive := fun s₁ : SyncState ω => Passes o false s.run s₁.run)
    (.refl _) ?_
  exact fun s₁ h₁ a _ => h₁.trans (hf s₁ a)

theorem published_of_publishedMap {hub : Hub} {path : ResourcePath} {h : Handle}
    (hget : hub.publishedMap.get? path = some h) : h ∈ hub.published := by
  obtain ⟨h', hh, he⟩ := List.mem_map.mp (SortedMap.mem_of_get?_ofList hget)
  cases he
  exact hh

theorem synchronize_passes {r : Run ω} (hstart : r.hub = o.hub) {readings : List Nat}
    (hop : o.operation = .synchronize readings) :
    Passes o false r (r.synchronize react ⟨readings, o.now⟩).2 := by
  have hprune : Passes o false r (r.modify (fun hub =>
      { hub with retries := hub.retries.prune (Clock.now ⟨readings, o.now⟩) })) :=
    passes_modify ((Hub.Move.retries _ hop).passage (Or.inr rfl))
  have hpublished : ∀ path h, r.hub.publishedMap.get? path = some h → h ∈ o.hub.published := by
    intro path h hget
    rw [← hstart]
    exact published_of_publishedMap hget
  have hrelease := passes_foldl (releaseStray_passes hop react r.hub.publishedMap)
    r.hub.driftPlan.release
  have hacquire := passes_foldl (acquireLost_passes hop react r.hub.publishedMap)
    r.hub.driftPlan.acquire
  have hreplace := fun s : SyncState ω =>
    passes_foldl (replaceOrphan_passes hpublished) r.hub.driftPlan.replace s
  exact (hprune.trans (hrelease _)).trans ((hacquire _).trans (hreplace _))

/-- Every operation is a passage. -/
theorem perform_passes (react : Surroundings ω) (now : Nat) (op : Operation) {hub : Hub}
    (around : ω) (hn : hub.Named)
    (hd : (hub.published.map Handle.path).Nodup) :
    Hub.Passage ⟨now, op, hub⟩ op.tells hub ((start hub around).perform react now op).attempts
      ((start hub around).perform react now op).hub := by
  have hp : Passes ⟨now, op, hub⟩ op.tells (start hub around)
      ((start hub around).perform react now op) := by
    cases op with
    | event e => exact passes_modify (Hub.Exchange.passage (.stir .refl (.event e)))
    | message client m => exact passes_modify (hearClient_passage _ _ _)
    | request token address request => exact serve_passes hd rfl rfl
    | followUp link => exact nextFollowUp_passes hn rfl rfl
    | schedule => exact passes_modify (Hub.Move.schedule.passage (Or.inl rfl))
    | synchronize readings => exact synchronize_passes rfl rfl
  obtain ⟨l, hl, hpass⟩ := hp
  rw [hl]
  exact hpass

end Run

end BoardFarm
