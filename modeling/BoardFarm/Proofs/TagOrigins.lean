import BoardFarm.Proofs.FairAllocation
import BoardFarm.Proofs.PassCommands

/-!
# Where tags come from

A place offers its tags and its name, as the tag `name`, and a pass gives it to a reservation that
asks for no more than that. Tags are loaded at a start and set by requests; nothing else changes
the tags of a place, and a new place has none. So every tag that a reservation with a place has
asked for goes back to the name of the place, to a start, or to a request.

* `Hub.Attested`: places and reservations only go by tags that places may have.
* `Hub.Attested.schedule`: a pass gives places away for the tags that they have.
* `Hub.Attested.perform`: only an accepted request calls for tags that places may have besides.
* `Station.Given`: the tags that places may have behind some turns.
* `Station.Itinerary.asked`: where the tags come from that a reservation with a place asks for.
-/

namespace BoardFarm

namespace Place

/-- A place offers its tags and its name. -/
theorem has_schedulingTags_iff {p : Place} {tag : Tag} :
    p.schedulingTags.has tag = true ↔
      p.tags.get? tag.key = some tag.value ∨ tag = ⟨"name", p.name⟩ := by
  unfold schedulingTags
  rw [SortedSet.has_ofList, decide_eq_true_eq, List.mem_append, List.mem_map, List.mem_singleton]
  constructor
  · rintro (⟨⟨key, value⟩, he, rfl⟩ | he)
    · exact Or.inl (SortedMap.mem_toList_iff.mp he)
    · exact Or.inr he
  · rintro (hget | he)
    · exact Or.inl ⟨(tag.key, tag.value), SortedMap.mem_toList_iff.mpr hget, rfl⟩
    · exact Or.inr he

/-- A tag behind some updates was there before, or is one of them that does not remove a tag. -/
theorem get?_setTags {updates : List (String × String)} {tags : SortedMap String String}
    {key value : String} (h : (setTags tags updates).get? key = some value) :
    tags.get? key = some value ∨ (key, value) ∈ updates ∧ value ≠ "" := by
  induction updates generalizing tags with
  | nil => exact Or.inl h
  | cons update rest ih =>
    rcases ih h with hold | ⟨hlater, hvalue⟩
    · dsimp only at hold
      split at hold
      · exact Or.inl (SortedMap.get?_erase_eq_some_iff.mp hold).2
      · rename_i hvalue
        rcases SortedMap.get?_insert_eq_some_iff.mp hold with ⟨rfl, rfl⟩ | ⟨_, hold⟩
        · exact Or.inr ⟨List.mem_cons_self .., by simpa using hvalue⟩
        · exact Or.inl hold
    · exact Or.inr ⟨List.mem_cons_of_mem _ hlater, hvalue⟩

end Place

namespace Hub

variable {hub hub' : Hub} {name : String} {p q : Place}

/-! ## Attested tags -/

/-- Places have no tags but those that they may have, and what a reservation with a place asks for
is among them, or is the name of the place. -/
structure Attested (may : String → Tag → Prop) (hub : Hub) : Prop where
  named : hub.Named
  planned : Planned hub.reservations
  tagged : ∀ {name : String} {p : Place}, hub.places.get? name = some p →
    ∀ tag : Tag, p.tags.get? tag.key = some tag.value → may name tag
  booked : ∀ {t : Token} {r : Reservation} {name : String},
    hub.reservations.get? t = some r → r.Has name →
    ∀ tag ∈ r.mainTags, may name tag ∨ tag = ⟨"name", name⟩

variable {may may' : String → Tag → Prop}

theorem Attested.mono (h : hub.Attested may) (hmay : ∀ name tag, may name tag → may' name tag) :
    hub.Attested may' :=
  ⟨h.named, h.planned, fun hp tag ht => hmay _ _ (h.tagged hp tag ht),
    fun hr hhas tag ht => (h.booked hr hhas tag ht).imp_left (hmay _ _)⟩

theorem Attested.of_same (h : hub.Attested may) (hplaces : hub'.places = hub.places)
    (hreservations : hub'.reservations = hub.reservations) : hub'.Attested may := by
  obtain ⟨hnamed, hplanned, htagged, hbooked⟩ := h
  rw [← hplaces] at htagged
  rw [← hreservations] at hplanned hbooked
  exact ⟨hnamed.of_places hplaces, hplanned, htagged, hbooked⟩

/-- What a reservation asks for, its place may have, or it is called so. -/
theorem Attested.asked (h : hub.Attested may) {t : Token} {r : Reservation}
    (hr : hub.reservations.get? t = some r) (hname : name ∈ r.allocatedPlaces) :
    ∀ tag ∈ r.mainTags, may name tag ∨ tag = ⟨"name", name⟩ := by
  have hformed := h.planned.formed hr
  rcases hformed with ⟨_, hempty⟩ | ⟨name', hhas⟩
  · unfold Reservation.allocatedPlaces at hname
    rw [hempty] at hname
    cases hname
  · rw [hhas.allocatedPlaces, List.mem_singleton] at hname
    exact h.booked hr (hname ▸ hhas)

theorem Attested.of_quiet (h : hub.Attested may) (hq : Quiet hub hub') : hub'.Attested may :=
  h.of_same hq.places hq.reservations

theorem Attested.store (h : hub.Attested may)
    (hq : ∀ tag : Tag, q.tags.get? tag.key = some tag.value → may q.name tag) :
    (hub.storePlace q).Attested may := by
  refine ⟨Write.named (.store q) h.named, h.planned, ?_, h.booked⟩
  intro name p hp
  rcases SortedMap.get?_insert_eq_some_iff.mp hp with ⟨rfl, rfl⟩ | ⟨_, hold⟩
  · exact hq
  · exact h.tagged hold

/-- A place is stored in place of one with the same tags. -/
theorem Attested.replace (h : hub.Attested may) (hp : hub.places.get? name = some p)
    (hname : q.name = p.name) (htags : q.tags = p.tags) : (hub.storePlace q).Attested may := by
  refine h.store ?_
  intro tag ht
  rw [hname, h.named name p hp]
  rw [htags] at ht
  exact h.tagged hp tag ht

theorem tags_relink (now : Nat) (owners : SortedMap String Token) (p : Place) :
    (relink now owners p).tags = p.tags := by
  unfold relink
  split <;> rfl

/-- A pass gives a place away for the tags that it has, and its name. -/
theorem Attested.schedule (h : hub.Attested may) (now : Nat) :
    (hub.schedule now).Attested may := by
  refine ⟨Writes.named (writes_schedule .refl now) h.named, ?_, ?_, ?_⟩
  · rw [reservations_schedule]
    exact (fits_advance h.named h.planned hub.settings now).toPlanned
  · intro name p hp tag ht
    rw [places_schedule h.named] at hp
    obtain ⟨p₀, hp₀, rfl⟩ := SortedMap.get?_mapValues_eq_some_iff.mp hp
    rw [tags_relink] at ht
    exact h.tagged hp₀ tag ht
  · intro t r name hr hhas tag ht
    rw [reservations_schedule] at hr
    rcases has_of_advance h.named h.planned hr hhas with
      ⟨r₀, hr₀, hhas₀, htags⟩ | ⟨p, hp, _, hsuits⟩
    · rw [htags] at ht
      exact h.booked hr₀ hhas₀ tag ht
    · rcases Place.has_schedulingTags_iff.mp (hsuits tag ht) with htag | hname
      · exact Or.inl (h.tagged hp tag htag)
      · rw [h.named name p hp] at hname
        exact Or.inr hname

theorem Attested.markDirty (h : hub.Attested may) : hub.markDirty.Attested may :=
  h.of_same rfl rfl

/-! ## Places and reservations that come and go -/

variable {now : Nat}

theorem Attested.newPlace (h : hub.Attested may) (hempty : q.tags = SortedMap.empty) :
    ((hub.storePlace q).markDirty.schedule now).Attested may := by
  have hstore : (hub.storePlace q).Attested may := by
    refine h.store ?_
    intro tag ht
    rw [hempty, SortedMap.get?_empty] at ht
    cases ht
  exact hstore.markDirty.schedule now

theorem Attested.deletePlace (h : hub.Attested may) (hd : hub.deletePlace now name = .ok hub') :
    hub'.Attested may := by
  rw [deletePlace_ok hd]
  have hw : Write hub ({ hub with places := hub.places.erase name }.tellPlaces
      (.deletedPlace name)) := .erase name
  have herased : ({ hub with places := hub.places.erase name }.tellPlaces
      (.deletedPlace name)).Attested may := by
    refine ⟨hw.named h.named, h.planned, ?_, h.booked⟩
    intro k p hp
    exact h.tagged (SortedMap.get?_erase_eq_some_iff.mp hp).2
  exact herased.markDirty.schedule now

/-- Reservations that have a place had it before, and ask for the same. -/
theorem Attested.rebook (h : hub.Attested may) {rs : SortedMap Token Reservation}
    (hplanned : Planned rs)
    (hold : ∀ {t : Token} {r : Reservation} {name : String}, rs.get? t = some r → r.Has name →
      ∃ r₀, hub.reservations.get? t = some r₀ ∧ r₀.Has name ∧ r.mainTags = r₀.mainTags) :
    Attested may { hub with reservations := rs } := by
  refine ⟨h.named, hplanned, h.tagged, ?_⟩
  intro t r name hr hhas tag ht
  obtain ⟨r₀, hr₀, hhas₀, htags⟩ := hold hr hhas
  rw [htags] at ht
  exact h.booked hr₀ hhas₀ tag ht

theorem Attested.reserve (h : hub.Attested may) {token : Token} {owner : String}
    {filters : Filters} {prio : Double} {r : Reservation}
    (hr : hub.reserve now token owner filters prio = .ok (r, hub')) : hub'.Attested may := by
  rw [reserve_ok hr]
  refine (h.rebook (h.planned.insert_waiting token rfl rfl rfl) ?_).schedule now
  intro t r' name hr' hhas
  rcases SortedMap.get?_insert_eq_some_iff.mp hr' with ⟨_, rfl⟩ | ⟨_, hold⟩
  · cases hhas.1
  · exact ⟨r', hold, hhas, rfl⟩

theorem Attested.cancel (h : hub.Attested may) {text : String}
    (hc : hub.cancel now text = .ok hub') : hub'.Attested may := by
  obtain ⟨r, _, rfl⟩ := cancel_ok hc
  have hplanned : Planned (hub.reservations.erase r.token) := h.planned.filter _
  refine (h.rebook hplanned ?_).schedule now
  intro t r' name hr' hhas
  exact ⟨r', (SortedMap.get?_erase_eq_some_iff.mp hr').2, hhas, rfl⟩

theorem Attested.poll (h : hub.Attested may) {text : String} {r : Reservation}
    (hpoll : hub.poll now text = .ok (r, hub')) : hub'.Attested may := by
  rcases poll_ok hpoll with rfl | ⟨token, r, hr, _, rfl⟩
  · exact h
  · refine h.rebook (h.planned.refresh hr now _) ?_
    intro t r' name hr' hhas
    obtain ⟨r₀, _, hr₀, rfl⟩ := h.planned.exists_of_refreshed hr hr'
    exact ⟨r₀, hr₀, hhas, rfl⟩

/-! ## Places that change -/

theorem Edit.tags (he : Edit hub p q) : q.tags = p.tags := by
  cases he <;> rfl

theorem Attested.edited (h : hub.Attested may) (he : Edited now hub name hub') :
    hub'.Attested may := by
  obtain ⟨p, q, hp, hedit, rfl⟩ := he
  have hreplaced : (hub.storePlace (q.touch now)).Attested may :=
    h.replace hp hedit.name hedit.tags
  exact hreplaced.markDirty

/-- Tags are set that the place may have. -/
theorem Attested.setTags (h : hub.Attested may) {tags : SortedMap String String}
    (hset : hub.setTags now name tags = .ok hub')
    (hmay : ∀ tag : Tag, tags.get? tag.key = some tag.value → tag.value ≠ "" → may name tag) :
    hub'.Attested may := by
  obtain ⟨_, p, hp, rfl⟩ := setTags_ok hset
  have hstore : (hub.storePlace
      ({ p with tags := Place.setTags p.tags tags.toList }.touch now)).Attested may := by
    refine h.store ?_
    intro tag ht
    show may p.name tag
    rw [h.named name p hp]
    rcases Place.get?_setTags ht with hold | ⟨hnew, hvalue⟩
    · exact h.tagged hp tag hold
    · exact hmay tag (SortedMap.mem_toList_iff.mp hnew) hvalue
  exact hstore.markDirty.schedule now

theorem Attested.completeAcquisition (h : hub.Attested may) (principal : String)
    (handles : List Handle) :
    (hub.completeAcquisition now name principal handles).Attested may := by
  unfold Hub.completeAcquisition
  split
  · exact h
  · rename_i p hp
    have hstore : (hub.storePlace ({ p with
        acquired := some principal, held := p.held ++ handles }.touch now)).Attested may :=
      h.replace hp rfl rfl
    exact hstore.markDirty.schedule now

theorem Attested.completeRelease (h : hub.Attested may) :
    (hub.completeRelease now name).Attested may := by
  unfold Hub.completeRelease
  split
  · exact h
  · rename_i p hp
    have hstore : (hub.storePlace ({ p with
        acquired := none, held := [], allowed := SortedMap.empty }.touch now)).Attested may :=
      h.replace hp rfl rfl
    exact hstore.markDirty.schedule now

theorem Attested.attach (h : hub.Attested may) (x : Handle) :
    (hub.attach now name x).Attested may := by
  unfold Hub.attach
  split
  · exact h
  · rename_i p hp
    exact h.replace hp rfl rfl

theorem Attested.addDefaultPlace (h : hub.Attested may) (group : String) :
    (hub.addDefaultPlace now group).Attested may := by
  unfold Hub.addDefaultPlace
  split
  · split
    · exact h
    · exact h.newPlace rfl
  · exact h

theorem Attested.publishHolders (h : hub.Attested may) (x : Handle) :
    (hub.publishHolders x).Attested may := by
  obtain ⟨clients, he⟩ := publishHolders_eq hub x
  rw [he]
  exact h.of_same rfl rfl

theorem Attested.keepsOwners (h : hub.Attested may) (hk : hub.KeepsOwners hub') :
    hub'.Attested may := by
  have hold : ∀ {k : String} {p' : Place}, hub'.places.get? k = some p' →
      ∃ p, hub.places.get? k = some p ∧ p'.name = p.name ∧ p'.tags = p.tags := by
    intro k p' hp'
    obtain ⟨p, hp⟩ := hk.old hp'
    obtain ⟨p'', hp'', _, _, rfl, _⟩ := hk.kept hp
    rw [hp'] at hp''
    cases hp''
    exact ⟨p, hp, rfl, rfl⟩
  obtain ⟨hnamed, hplanned, htagged, hbooked⟩ := h
  rw [← hk.reservations] at hplanned hbooked
  refine ⟨?_, hplanned, ?_, hbooked⟩
  · intro k p' hp'
    obtain ⟨p, hp, hname, _⟩ := hold hp'
    rw [hname]
    exact hnamed k p hp
  · intro k p' hp' tag ht
    obtain ⟨p, hp, _, htags⟩ := hold hp'
    rw [htags] at ht
    exact htagged hp tag ht

theorem Attested.hearClient (h : hub.Attested may) (id : Nat) (m : ClientRequest) :
    (hub.hearClient id m).Attested may := by
  cases m with
  | startup name version => exact h.of_same rfl rfl
  | sync n => exact h.of_same rfl rfl
  | subscribe places resources => cases places <;> cases resources <;> exact h.of_same rfl rfl
  | blank => exact h

/-! ## Operations -/

section Operations

variable {ω : Type} {react : Surroundings ω} {r : Run ω}

theorem Attested.exchanges {tells : Bool} {r' : Run ω} (h : r.hub.Attested may)
    (hx : Run.Exchanges tells r r') : r'.hub.Attested may := by
  obtain ⟨_, _, hx⟩ := hx
  exact h.of_quiet hx.quiet

theorem Attested.change (h : r.hub.Attested may) {e : Except RequestError Hub}
    (he : ∀ hub', e = .ok hub' → hub'.Attested may) : (r.change e).2.hub.Attested may := by
  cases e with
  | error cause => exact h
  | ok hub' => exact he hub' rfl

theorem Attested.answer (h : r.hub.Attested may) {e : Except RequestError (Reservation × Hub)}
    (he : ∀ reservation hub', e = .ok (reservation, hub') → hub'.Attested may) :
    (r.answer e).2.hub.Attested may := by
  cases e with
  | error cause => exact h
  | ok answer => exact he answer.1 answer.2 rfl

theorem Attested.withPrincipal (h : r.hub.Attested may) {address : Option String}
    {serve : String → Except RequestError Reply × Run ω}
    (hserve : ∀ user, (serve user).2.hub.Attested may) :
    (r.withPrincipal address serve).2.hub.Attested may := by
  unfold Run.withPrincipal
  split
  · exact h
  · exact hserve _

theorem Attested.acquirePlace (h : r.hub.Attested may) (principal : String) :
    (Run.acquirePlace react now name principal r).2.hub.Attested may := by
  unfold Run.acquirePlace
  split
  · exact h
  · rename_i p _
    split
    · exact h
    · obtain ⟨hx, _⟩ := Run.acquireAll_spec react name (r.hub.claimed p) r
      have hwaited := h.exchanges hx
      split
      · rename_i hr
        rw [hr] at hwaited
        exact hwaited
      · rename_i handles r' hr
        rw [hr] at hwaited
        exact hwaited.completeAcquisition principal handles

theorem Attested.releasePlace (h : r.hub.Attested may) (user : Option String) :
    (Run.releasePlace react now name user r).2.hub.Attested may := by
  unfold Run.releasePlace
  split
  · exact h
  · rename_i p _
    split
    · exact h
    · split
      · exact h
      · exact (h.exchanges (Run.releaseEach_exchanges react p.held r)).completeRelease

/-- Only an accepted request that sets tags calls for tags that places may have. -/
theorem Attested.serve (h : r.hub.Attested may) {token : Token} {address : Option String}
    {request : Request}
    (hset : ∀ place tags hub', request = .setTags place tags →
      r.hub.setTags now place tags = .ok hub' →
      ∀ tag : Tag, tags.get? tag.key = some tag.value → tag.value ≠ "" → may place tag) :
    (r.serve react now token address request).2.hub.Attested may := by
  cases request with
  | addPlace name =>
    refine h.change (fun hub' he => ?_)
    obtain ⟨_, _, _, rfl⟩ := addPlace_ok he
    exact h.newPlace rfl
  | deletePlace name => exact h.change (fun _ he => h.deletePlace he)
  | addAlias place other => exact h.change (fun _ he => h.edited (edited_addAlias he))
  | deleteAlias place other => exact h.change (fun _ he => h.edited (edited_deleteAlias he))
  | setTags place tags =>
    exact h.change (fun hub' he => h.setTags he (hset place tags hub' rfl he))
  | setComment place comment => exact h.change (fun _ he => h.edited (edited_setComment he))
  | addMatch place pattern rename => exact h.change (fun _ he => h.edited (edited_addMatch he))
  | deleteMatch place pattern rename =>
    exact h.change (fun _ he => h.edited (edited_deleteMatch he))
  | acquire place => exact h.withPrincipal (fun user => h.acquirePlace user)
  | release place user => exact h.releasePlace (nonEmpty? user)
  | allow place user =>
    exact h.withPrincipal (fun _ => h.change (fun _ he => h.edited (edited_allow he)))
  | reserve filters prio =>
    exact h.withPrincipal (fun _ => h.answer (fun _ _ he => h.reserve he))
  | cancel text => exact h.change (fun _ he => h.cancel he)
  | poll text => exact h.answer (fun _ _ he => h.poll he)

theorem Attested.resourceAdded (h : r.hub.Attested may) (x : Handle) :
    (Run.resourceAdded react now x r).hub.Attested may := by
  have hadded : (r.modify (fun hub => hub.addDefaultPlace now x.path.group)).hub.Attested may :=
    h.addDefaultPlace x.path.group
  unfold Run.resourceAdded
  dsimp only
  split
  · exact hadded
  · rename_i p _
    obtain ⟨hx, _⟩ := Run.acquireAll_spec react p.name [x]
      (r.modify (fun hub => hub.addDefaultPlace now x.path.group))
    have hwaited := hadded.exchanges hx
    split
    · rename_i hr
      rw [hr] at hwaited
      exact hwaited
    · rename_i r' hr
      rw [hr] at hwaited
      exact hwaited.attach x

theorem Attested.nextFollowUp (h : r.hub.Attested may) (link : Nat) :
    (Run.nextFollowUp react now link r).hub.Attested may := by
  unfold Run.nextFollowUp
  split
  · exact h
  · rename_i f _
    have htaken : (r.modify (fun hub =>
        { hub with followUps := hub.followUps.eraseP (fun e => e.1 == link) })).hub.Attested may :=
      h.of_same rfl rfl
    cases f with
    | added x => exact htaken.resourceAdded x
    | removed x => exact htaken.publishHolders x

end Operations

/-- The reservations change at most once with an operation, so what is seen of them while it waits
is what was before or what will be behind it. -/
theorem Passage.reservations_of_attempt {o : Occasion} {tells : Bool} {l : List Attempt}
    (hp : Passage o tells o.hub l hub') :
    ∀ a ∈ l, a.hub.reservations = o.hub.reservations ∨
      a.hub.reservations = hub'.reservations := by
  induction hp with
  | refl => exact fun a ha => by cases ha
  | exchange _ hx ih =>
    intro a ha
    rw [hx.quiet.reservations]
    rcases List.mem_append.mp ha with hold | hnew
    · exact ih a hold
    · exact Or.inr (hx.quiet_attempt hnew).reservations
  | move _ _ honce ih =>
    intro a ha
    rcases ih a ha with hbefore | hsame
    · exact Or.inl hbefore
    · rcases honce with hfirst | hkept
      · exact Or.inl (hsame.trans hfirst)
      · exact Or.inr (hsame.trans hkept.symm)

/-- The request of an operation gives a place a tag, and is not refused. An empty value would remove
the tag. -/
def GivesTag (hub : Hub) (now : Nat) (op : Operation) (name : String) (tag : Tag) : Prop :=
  ∃ token address tags hub', op = .request token address (.setTags name tags) ∧
    hub.setTags now name tags = .ok hub' ∧ tags.get? tag.key = some tag.value ∧ tag.value ≠ ""

theorem Attested.perform {ω : Type} (react : Surroundings ω) (around : ω) (now : Nat)
    (op : Operation) (horderly : hub.Orderly) (h : hub.Attested may)
    (hmay : ∀ name tag, hub.GivesTag now op name tag → may name tag) :
    ((Run.start hub around).perform react now op).hub.Attested may := by
  have hstart : (Run.start hub around).hub.Attested may := h
  cases op with
  | event e => exact h.of_quiet (quiet_apply hub e)
  | message client m => exact h.hearClient client m
  | request token address request =>
    refine hstart.serve ?_
    rintro place tags hub' rfl he tag ht hvalue
    exact hmay place tag ⟨token, address, tags, hub', rfl, he, ht, hvalue⟩
  | followUp link => exact hstart.nextFollowUp link
  | schedule => exact h.schedule now
  | synchronize readings =>
    exact h.keepsOwners (Run.synchronize_rations react around ⟨readings, now⟩ horderly rfl).2

end Hub

namespace Station

variable {settings : HubSettings} {directory : Option StateDirectory} {start s t : Station}
  {l : List (Station × Turn)} {turn : Turn}

/-- The turn gives a place a tag. -/
def GivesTag (s : Station) (turn : Turn) (name : String) (tag : Tag) : Prop :=
  ∃ op, turn.operation = some op ∧ s.hub.GivesTag turn.now op name tag

/-- A place has had a tag at the start, or one of the turns has given it the tag. -/
def Given (start : Station) (l : List (Station × Turn)) (name : String) (tag : Tag) : Prop :=
  (∃ p, start.hub.places.get? name = some p ∧ p.tags.get? tag.key = some tag.value) ∨
    ∃ e ∈ l, e.1.GivesTag e.2 name tag

theorem Step.attested {may : String → Tag → Prop} (hs : Step s turn t) (horderly : s.hub.Orderly)
    (h : s.hub.Attested may) (hmay : ∀ name tag, s.GivesTag turn name tag → may name tag) :
    t.hub.Attested may := by
  cases hs with
  | operate react around now op =>
    exact h.perform react around now op horderly
      (fun name tag htags => hmay name tag ⟨op, rfl, htags⟩)
  | save now =>
    obtain ⟨dirty, hd⟩ := hub_save s
    rw [hd]
    exact h.of_same rfl rfl
  | saveIfDirty now =>
    obtain ⟨dirty, hd⟩ := hub_saveIfDirty s
    rw [hd]
    exact h.of_same rfl rfl

theorem attested_start (h : Station.start settings directory = .ok start) :
    start.hub.Attested (Given start []) := by
  obtain ⟨places, hhub, _⟩ := start_ok h
  have hnone : start.hub.reservations = SortedMap.empty := by
    rw [hhub]
    rfl
  refine ⟨named_start h, (linked_start h).fits.toPlanned, ?_, ?_⟩
  · intro name p hp tag ht
    exact Or.inl ⟨p, hp, ht⟩
  · intro t r name hr
    rw [hnone, SortedMap.get?_empty] at hr
    cases hr

theorem Given.append {name : String} {tag : Tag} (h : Given start l name tag)
    (l' : List (Station × Turn)) : Given start (l ++ l') name tag := by
  rcases h with hloaded | ⟨e, he, htags⟩
  · exact Or.inl hloaded
  · exact Or.inr ⟨e, List.mem_append_left _ he, htags⟩

/-- Behind some turns, places have the tags that they had at the start or were given since. -/
theorem Itinerary.attested (h : Station.start settings directory = .ok start)
    (hi : Itinerary start l s) : s.hub.Attested (Given start l) := by
  induction hi with
  | start => exact attested_start h
  | @step past s turn t hi hs ih =>
    have hpast := ih.mono (fun _ _ hgiven => hgiven.append [(s, turn)])
    refine hs.attested (hi.course.orderly h) hpast ?_
    intro name tag htags
    exact Or.inr ⟨(s, turn), List.mem_append_right _ (List.mem_singleton.mpr rfl), htags⟩

/-- Whenever the outcome of a command becomes known, the reservations are those before the turn or
those behind it. -/
theorem Step.reservations_of_attempt (hs : Step s turn t) (hn : s.hub.Named) (hf : s.hub.Filed)
    {a : Attempt} (ha : a ∈ turn.attempts) :
    a.hub.reservations = s.hub.reservations ∨ a.hub.reservations = t.hub.reservations := by
  rcases hs.passage hn hf with ⟨op, _, hp⟩ | ⟨_, hnone, _⟩
  · exact hp.reservations_of_attempt a ha
  · rw [hnone] at ha
    cases ha

theorem Itinerary.exists_attested (h : Station.start settings directory = .ok start)
    (hi : Itinerary start l s) {e : Station × Turn} (he : e ∈ l) {a : Attempt}
    (ha : a ∈ e.2.attempts) :
    ∃ hub : Hub, hub.Attested (Given start l) ∧ a.hub.reservations = hub.reservations := by
  induction hi with
  | start => cases he
  | @step past s turn t hi hs ih =>
    rcases List.mem_append.mp he with hold | hnew
    · obtain ⟨hub, hattested, hsame⟩ := ih hold
      exact ⟨hub, hattested.mono (fun _ _ hgiven => hgiven.append _), hsame⟩
    · cases List.mem_singleton.mp hnew
      obtain ⟨hn, hf⟩ := hi.course.filed h
      rcases hs.reservations_of_attempt hn hf ha with hsame | hsame
      · exact ⟨s.hub, (hi.attested h).mono (fun _ _ hgiven => hgiven.append _), hsame⟩
      · exact ⟨t.hub, (hi.step hs).attested h, hsame⟩

/-- Behind some turns, and whenever the outcome of one of their commands has become known: what a
reservation asks for is the name of its place, or a tag that the place had at the start or was
given since. -/
theorem Itinerary.asked (h : Station.start settings directory = .ok start)
    (hi : Itinerary start l s) {hub : Hub}
    (hreached : hub = s.hub ∨ ∃ e ∈ l, ∃ a ∈ e.2.attempts, hub = a.hub) {token : Token}
    {r : Reservation} (hr : hub.reservations.get? token = some r) {name : String}
    (hname : name ∈ r.allocatedPlaces) :
    ∀ tag ∈ r.mainTags, Given start l name tag ∨ tag = ⟨"name", name⟩ := by
  rcases hreached with rfl | ⟨e, he, a, ha, rfl⟩
  · exact (hi.attested h).asked hr hname
  · obtain ⟨hub, hattested, hsame⟩ := hi.exists_attested h he ha
    rw [hsame] at hr
    exact hattested.asked hr hname

end Station

end BoardFarm
