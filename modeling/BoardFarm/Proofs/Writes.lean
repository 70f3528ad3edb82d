import BoardFarm.Proofs.Quiet
import Mathlib.Logic.Relation

/-!
# What moves write

A move is made of a few single writes. A place is stored under its name and told to the
subscribers, or erased and told to be deleted; what clients do not see may change freely. A pass
over the reservations stores the places whose reservation changes, one after another.

* `Hub.Move.writes`: the single writes of which moves are made.
* `Hub.Named`: places are stored under their names, whatever happens.
* `Hub.places_schedule`: what a pass over the reservations does to places.
* `Hub.Placing`, `Hub.Move.placing`: what moves do to the table of places.
* `Hub.Passage.kept`: properties of places and reservations along a passage.
-/

namespace BoardFarm.Hub

/-! ## Single writes -/

/-- The single writes of which moves are made: a place is stored or erased, or told of again,
something that clients do not see is changed, or a client's subscription is switched. -/
inductive Write (hub : Hub) : Hub → Prop
  | store (p : Place) : Write hub (hub.storePlace p)
  | erase (name : String) :
      Write hub ({ hub with places := hub.places.erase name }.tellPlaces (.deletedPlace name))
  | tell {p : Place} (hp : p ∈ hub.places.values) : Write hub (hub.publishPlace p)
  | plan (rs : SortedMap Token Reservation) (b : RetryBudget) (dirty : Bool) :
      Write hub { hub with reservations := rs, retries := b, dirty := dirty }
  | follow (id : Nat) (enable : Bool) : Write hub (hub.followPlaces id enable)

/-- Several writes. -/
abbrev Writes : Hub → Hub → Prop := Relation.ReflTransGen Write

theorem writes_markDirty {hub hub' : Hub} (h : Writes hub hub') : Writes hub hub'.markDirty :=
  h.tail (.plan hub'.reservations hub'.retries true)

theorem writes_linkPlace {hub hub' : Hub} (h : Writes hub hub') (now : Nat)
    (owners : SortedMap String Token) (p : Place) : Writes hub (linkPlace now owners hub' p) := by
  unfold linkPlace
  split
  · exact h
  · exact h.tail (.store _)

theorem writes_schedule {hub hub' : Hub} (h : Writes hub hub') (now : Nat) :
    Writes hub (hub'.schedule now) := by
  unfold Hub.schedule
  refine List.foldlRecOn _ _ (motive := Writes hub) (h.tail (.plan _ hub'.retries hub'.dirty)) ?_
  exact fun hub₁ h₁ p _ => writes_linkPlace h₁ now _ p

theorem writes_publishHolders (hub : Hub) (h : Handle) : Writes hub (hub.publishHolders h) := by
  unfold publishHolders
  -- Publication leaves the places as they are, so each holder is still stored when it is told.
  refine (List.foldlRecOn _ _ (motive := fun hub₁ => hub₁.places = hub.places ∧ Writes hub hub₁)
    ⟨rfl, .refl⟩ ?_).2
  rintro hub₁ ⟨hplaces, h₁⟩ p hp
  refine ⟨hplaces, h₁.tail (.tell ?_)⟩
  rw [hplaces]
  exact (List.mem_filter.mp hp).1

theorem Edit.name {hub : Hub} {p p' : Place} (he : Edit hub p p') : p'.name = p.name := by
  cases he <;> rfl

theorem replaceHeld_eq_some {hub hub' : Hub} {now : Nat} {name : String} {h : Handle}
    (hr : hub.replaceHeld now name h = some hub') :
    ∃ p old, hub.places.get? name = some p ∧ p.held.find? (fun x => x.path = h.path) = some old ∧
      hub' = hub.storePlace ({ p with held := replaceHandle h p.held }.touch now) := by
  unfold replaceHeld at hr
  split at hr
  · cases hr
  · rename_i p hp
    split at hr
    · cases hr
    · rename_i old hold
      split at hr
      · cases hr
      · cases hr
        exact ⟨p, old, hp, hold, rfl⟩

theorem publishHolders_eq (hub : Hub) (h : Handle) :
    ∃ clients, hub.publishHolders h = { hub with clients := clients } := by
  unfold publishHolders
  refine List.foldlRecOn _ _ (motive := fun hub₁ : Hub => ∃ clients,
    hub₁ = { hub with clients := clients }) ⟨hub.clients, rfl⟩ ?_
  rintro hub₁ ⟨clients, rfl⟩ p _
  exact ⟨_, rfl⟩

theorem Move.writes {o : Occasion} {hub hub' : Hub} (h : Move o hub hub') : Writes hub hub' := by
  cases h with
  | edit _ _ => exact writes_markDirty (.single (.store _))
  | retag _ _ _ => exact writes_schedule (writes_markDirty (.single (.store _))) o.now
  | add _ _ => exact writes_schedule (writes_markDirty (.single (.store _))) o.now
  | addDefault => exact writes_schedule (writes_markDirty (.single (.store _))) o.now
  | delete name => exact writes_schedule (writes_markDirty (.single (.erase name))) o.now
  | acquire hp =>
    unfold completeAcquisition
    rw [hp]
    exact writes_schedule (writes_markDirty (.single (.store _))) o.now
  | release hp =>
    unfold completeRelease
    rw [hp]
    exact writes_schedule (writes_markDirty (.single (.store _))) o.now
  | attach hp =>
    unfold Hub.attach
    rw [hp]
    exact .single (.store _)
  | replace hr _ =>
    obtain ⟨p, old, _, _, rfl⟩ := replaceHeld_eq_some hr
    exact .single (.store _)
  | republish h => exact writes_publishHolders hub h
  | reserve =>
    exact writes_schedule (.single (.plan _ hub.retries hub.dirty)) o.now
  | cancel => exact writes_schedule (.single (.plan _ hub.retries hub.dirty)) o.now
  | poll _ _ => exact .single (.plan _ hub.retries hub.dirty)
  | schedule => exact writes_schedule .refl o.now
  | subscribe id enable => exact .single (.follow id enable)
  | retries b => exact .single (.plan hub.reservations b hub.dirty)

/-! ## Places under their names -/

/-- Every place is stored under its name. -/
def Named (hub : Hub) : Prop := ∀ k p, hub.places.get? k = some p → p.name = k

theorem Named.of_places {hub hub' : Hub} (h : hub.Named) (he : hub'.places = hub.places) :
    hub'.Named := by
  unfold Named
  rw [he]
  exact h

theorem Named.get?_name {hub : Hub} (h : hub.Named) {p : Place} (hp : p ∈ hub.places.values) :
    hub.places.get? p.name = some p := by
  obtain ⟨k, hk⟩ := SortedMap.mem_values_iff.mp hp
  rw [h k p hk]
  exact hk

/-- Places that are stored under their names have different names. -/
theorem map_name_values {places : SortedMap String Place}
    (h : ∀ k p, places.get? k = some p → p.name = k) :
    places.values.map Place.name = places.keys := by
  unfold SortedMap.values SortedMap.keys
  rw [List.map_map]
  apply List.map_congr_left
  rintro ⟨k, p⟩ he
  exact h k p (SortedMap.mem_toList_iff.mp he)

theorem Write.named {hub hub' : Hub} (hw : Write hub hub') (h : hub.Named) : hub'.Named := by
  cases hw with
  | store p =>
    intro k q hq
    rcases SortedMap.get?_insert_eq_some_iff.mp hq with ⟨rfl, rfl⟩ | ⟨_, hold⟩
    · rfl
    · exact h k q hold
  | erase name =>
    intro k q hq
    exact h k q (SortedMap.get?_erase_eq_some_iff.mp hq).2
  | tell _ => exact h
  | plan rs b dirty => exact h
  | follow id enable => exact h

theorem Writes.named {hub hub' : Hub} (hw : Writes hub hub') (h : hub.Named) : hub'.Named := by
  induction hw with
  | refl => exact h
  | tail _ hw ih => exact hw.named ih

theorem Passage.named {o : Occasion} {tells : Bool} {hub hub' : Hub} {l : List Attempt}
    (hp : Passage o tells hub l hub') (h : hub.Named) : hub'.Named := by
  induction hp with
  | refl => exact h
  | exchange _ hx ih => exact ih.of_places hx.quiet.places
  | move _ hm _ ih => exact Writes.named hm.writes ih

/-- What depends on places and reservations only, and is kept by every move, holds behind a
passage and whenever the outcome of a command becomes known. -/
theorem Passage.kept {P : Hub → Prop} {o : Occasion} {tells : Bool} {hub hub' : Hub}
    {l : List Attempt} (hquiet : ∀ {hub hub' : Hub}, Quiet hub hub' → P hub → P hub')
    (hmove : ∀ {hub hub' : Hub}, hub.Named → P hub → Move o hub hub' → P hub')
    (hp : Passage o tells hub l hub') (hn : hub.Named) (h : P hub) :
    P hub' ∧ ∀ a ∈ l, P a.hub := by
  induction hp with
  | refl => exact ⟨h, fun a ha => by cases ha⟩
  | exchange hp hx ih =>
    obtain ⟨h₁, hl⟩ := ih
    refine ⟨hquiet hx.quiet h₁, ?_⟩
    intro a ha
    rcases List.mem_append.mp ha with hold | hnew
    · exact hl a hold
    · exact hquiet (hx.quiet_attempt hnew) h₁
  | move hp hm _ ih => exact ⟨hmove (hp.named hn) ih.1 hm, ih.2⟩

/-! ## Passes over the reservations -/

/-- A place after a pass that leaves it a reservation or none. -/
def relink (now : Nat) (owners : SortedMap String Token) (p : Place) : Place :=
  if p.reservation = owners.get? p.name then p
  else { p with reservation := owners.get? p.name }.touch now

theorem get?_linkPlace {now : Nat} {owners : SortedMap String Token} {hub : Hub} {p : Place}
    (hp : hub.places.get? p.name = some p) (k : String) :
    (linkPlace now owners hub p).places.get? k =
      if p.name = k then some (relink now owners p) else hub.places.get? k := by
  unfold linkPlace relink
  split
  · split
    · rename_i hk
      rw [← hk]
      exact hp
    · rfl
  · exact SortedMap.get?_insert ..

theorem get?_foldl_linkPlace {now : Nat} {owners : SortedMap String Token} {l : List Place}
    {hub : Hub} (hl : (l.map Place.name).Nodup)
    (hp : ∀ p ∈ l, hub.places.get? p.name = some p) (k : String) :
    (l.foldl (linkPlace now owners) hub).places.get? k =
      if k ∈ l.map Place.name then (hub.places.get? k).map (relink now owners)
      else hub.places.get? k := by
  induction l generalizing hub with
  | nil => simp
  | cons p rest ih =>
    rw [List.map_cons, List.nodup_cons] at hl
    have hhead := hp p (List.mem_cons_self ..)
    have hrest : ∀ q ∈ rest, (linkPlace now owners hub p).places.get? q.name = some q := by
      intro q hq
      rw [get?_linkPlace hhead, if_neg]
      · exact hp q (List.mem_cons_of_mem _ hq)
      · intro he
        exact hl.1 (he ▸ List.mem_map_of_mem hq)
    rw [List.foldl_cons, ih hl.2 hrest, get?_linkPlace hhead]
    by_cases hk : p.name = k
    · subst hk
      simp [hl.1, hhead]
    · have hk' : ¬ k = p.name := fun he => hk he.symm
      simp [hk, hk']

/-- A pass leaves every place its reservation and changes nothing else of it but the time. -/
theorem places_schedule {hub : Hub} (h : hub.Named) (now : Nat) :
    (hub.schedule now).places = hub.places.mapValues (fun _ p => relink now
      (owners (advance hub.settings hub.places now hub.reservations)) p) := by
  apply SortedMap.ext_get?
  intro k
  have hnodup : (hub.places.values.map Place.name).Nodup := by
    rw [map_name_values h]
    exact hub.places.keys_nodup
  unfold Hub.schedule
  refine Eq.trans (get?_foldl_linkPlace hnodup ?_ k) ?_
  · exact fun p hp => h.get?_name hp
  rw [SortedMap.get?_mapValues, map_name_values h]
  split
  · rfl
  · rename_i hk
    rw [SortedMap.mem_keys_iff] at hk
    have hnone : hub.places.get? k = none := by simpa using hk
    simp [hnone]

theorem reservations_schedule (hub : Hub) (now : Nat) :
    (hub.schedule now).reservations =
      advance hub.settings hub.places now hub.reservations := by
  unfold Hub.schedule
  refine List.foldlRecOn _ _ (motive := fun hub₁ : Hub => hub₁.reservations =
    advance hub.settings hub.places now hub.reservations) rfl ?_
  intro hub₁ h₁ p _
  unfold linkPlace
  split
  · exact h₁
  · exact h₁

/-! ## The table of places -/

/-- What moves do to a single place, but for the time of its change. -/
inductive Change (o : Occasion) (hub : Hub) (name : String) (p : Place) : Place → Prop
  | edit {q : Place} (he : Edit hub p q) : Change o hub name p q
  | retag (tags : SortedMap String String)
      (hfirst : hub.reservations = o.hub.reservations) :
      Change o hub name p { p with tags := Place.setTags p.tags tags.toList }
  | acquire {principal : String} {handles : List Handle}
      (hallowed : Run.acquisitionError hub p principal = none)
      (hdistinct : (handles.map Handle.path).Nodup)
      (hfree : ∀ h ∈ handles, hub.otherHolder name h.path = none)
      (hpublished : ∀ h ∈ handles, h ∈ o.hub.published) :
      Change o hub name p { p with acquired := some principal, held := p.held ++ handles }
  | release : Change o hub name p { p with acquired := none, held := [], allowed := SortedMap.empty }
  | attach {h : Handle} (hheld : p.acquired.isSome) (hnew : p.holdsPath h.path = false)
      (hfree : hub.otherHolder name h.path = none) {link : Nat}
      (hwork : o.hub.nextWork link = some (.added h)) :
      Change o hub name p { p with held := p.held ++ [h] }
  | replace {h old : Handle} (hold : p.held.find? (fun x => x.path = h.path) = some old)
      (hpublished : h ∈ o.hub.published) :
      Change o hub name p { p with held := replaceHandle h p.held }

/-- What moves do to the table of places, but for the reservations of the places. -/
inductive Placing (o : Occasion) (hub : Hub) : SortedMap String Place → Prop
  | keep : Placing o hub hub.places
  | erase (name : String) : Placing o hub (hub.places.erase name)
  | add {name : String} (hfresh : hub.places.contains name = false)
      (hunused : hub.ownerOfAlias name = none) :
      Placing o hub (hub.places.insert name (Place.new name o.now))
  | addDefault {link : Nat} {h : Handle} {m : ResourceMatch}
      (hop : o.operation = .followUp link) (hwork : o.hub.nextWork link = some (.added h))
      (hplaces : hub.places = o.hub.places) (hnumeric : isNumeric h.path.group = true)
      (hfresh : hub.places.contains h.path.group = false)
      (hm : ResourceMatch.parse (defaultPattern h.path.group) none = .ok m) :
      Placing o hub
        (hub.places.insert h.path.group { Place.new h.path.group o.now with patterns := [m] })
  | change {name : String} {p q : Place} (hp : hub.places.get? name = some p)
      (hc : Change o hub name p q) : Placing o hub (hub.places.insert name (q.touch o.now))

variable {o : Occasion} {hub hub' : Hub}

theorem Change.name {name : String} {p q : Place} (hc : Change o hub name p q) :
    q.name = p.name := by
  cases hc with
  | edit he => exact he.name
  | _ => rfl

/-- The places behind a move, apart from what a pass over the reservations does to them. -/
theorem Move.placing (hn : hub.Named) (hm : Move o hub hub') :
    ∃ places, Placing o hub places ∧ (hub'.places = places ∨
      ∃ owners, hub'.places = places.mapValues (fun _ p => relink o.now owners p)) := by
  -- a changed place is stored under the name of the place before
  have hchange : ∀ {k : String} {p q : Place}, hub.places.get? k = some p →
      Change o hub k p q → Placing o hub (hub.places.insert q.name (q.touch o.now)) := by
    intro k p q hp hc
    rw [hc.name, hn k p hp]
    exact .change hp hc
  have hpass : ∀ {hub₁ : Hub}, hub₁.Named → Placing o hub hub₁.places →
      ∃ places, Placing o hub places ∧ ((hub₁.schedule o.now).places = places ∨
        ∃ owners, (hub₁.schedule o.now).places =
          places.mapValues (fun _ p => relink o.now owners p)) :=
    fun hn₁ hp₁ => ⟨_, hp₁, Or.inr ⟨_, places_schedule hn₁ o.now⟩⟩
  have hstored : ∀ {q : Place}, (hub.storePlace q).markDirty.Named := fun {q} =>
    Writes.named (writes_markDirty (.single (.store q))) hn
  cases hm with
  | edit hp he => exact ⟨_, hchange hp (.edit he), Or.inl rfl⟩
  | @retag name p tags hp _ hfirst =>
    have hplacing := hchange hp (.retag tags hfirst)
    exact hpass hstored hplacing
  | add hfresh hunused => exact hpass hstored (.add hfresh hunused)
  | addDefault hop hwork hplaces hnumeric hfresh hm =>
    exact hpass hstored (.addDefault hop hwork hplaces hnumeric hfresh hm)
  | delete name =>
    have hw : Write hub _ := .erase name
    exact hpass (Writes.named (writes_markDirty (.single hw)) hn) (.erase name)
  | acquire hp hallowed hdistinct hfree hpublished =>
    unfold completeAcquisition
    rw [hp]
    have hplacing := hchange hp (.acquire hallowed hdistinct hfree hpublished)
    exact hpass hstored hplacing
  | release hp =>
    unfold completeRelease
    rw [hp]
    have hplacing := hchange hp .release
    exact hpass hstored hplacing
  | attach hp hheld hnew hfree hwork =>
    unfold Hub.attach
    rw [hp]
    exact ⟨_, hchange hp (.attach hheld hnew hfree hwork), Or.inl rfl⟩
  | replace hr hpublished =>
    obtain ⟨p, old, hp, hold, rfl⟩ := replaceHeld_eq_some hr
    exact ⟨_, hchange hp (.replace hold hpublished), Or.inl rfl⟩
  | republish h =>
    obtain ⟨clients, he⟩ := publishHolders_eq hub h
    rw [he]
    exact ⟨_, .keep, Or.inl rfl⟩
  | reserve =>
    have hnamed : ∀ rs, Named { hub with reservations := rs } := fun _ => hn
    exact hpass (hnamed _) .keep
  | cancel =>
    have hnamed : ∀ rs, Named { hub with reservations := rs } := fun _ => hn
    exact hpass (hnamed _) .keep
  | poll _ _ => exact ⟨_, .keep, Or.inl rfl⟩
  | schedule => exact hpass hn .keep
  | subscribe id enable => exact ⟨_, .keep, Or.inl rfl⟩
  | retries b => exact ⟨_, .keep, Or.inl rfl⟩

end BoardFarm.Hub
