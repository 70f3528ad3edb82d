import BoardFarm.Proofs.Course

/-!
# How operations change the hub

Every operation passes through changes of two sorts. *Stirs* and settled commands concern
links, records and what clients hear of resources; they may happen while an operation waits and
leave places and reservations alone. *Moves* concern places and reservations; each is made in
one go and leaves links and records alone.

* `Hub.Stir`, `Attempt.settled`, `Hub.Exchange`: what happens around commands.
* `Hub.Move`: what happens to places and reservations, with what is known when it happens.
* `Hub.Passage`: a run of both, with the commands that are tried.
-/

namespace BoardFarm

/-- What an operation starts from: the reading of the clock, the operation, and the hub. -/
structure Occasion where
  now : Nat
  operation : Operation
  hub : Hub

/-- The hub when a command is done with: a confirmed holder is noted. After a failed release
the present state of the resource is told, except in a reconciliation pass. -/
def Attempt.settled (tells : Bool) (a : Attempt) : Hub :=
  match a.outcome with
  | .done => a.hub.modifyRecord a.handle (fun r => { r with acquired := a.place })
  | .failed _ => if tells && a.place.isNone then a.hub.publishResource a.handle else a.hub

namespace Hub

/-! ## Changes -/

/-- An event, a command that is queued or given up, or a change of the waiting work. -/
inductive Stir (hub : Hub) : Hub → Prop
  | event (e : Event) : Stir hub (hub.apply e)
  | channel (id : Nat) (f : Channel → Channel) : Stir hub (Run.withChannel hub id f)
  | work {l : List (Nat × FollowUp)} (hl : l.Sublist hub.followUps) :
      Stir hub { hub with followUps := l }

/-- Stirs, and the commands that are tried among them. -/
inductive Exchange (tells : Bool) (hub : Hub) : List Attempt → Hub → Prop
  | refl : Exchange tells hub [] hub
  | stir {l : List Attempt} {hub₁ hub₂ : Hub} (h : Exchange tells hub l hub₁)
      (hs : Stir hub₁ hub₂) : Exchange tells hub l hub₂
  | settle {l : List Attempt} {a : Attempt} (h : Exchange tells hub l a.hub) :
      Exchange tells hub (l ++ [a]) (a.settled tells)

/-- The first piece of the waiting work of a link. -/
def nextWork (hub : Hub) (link : Nat) : Option FollowUp :=
  (hub.followUps.find? (fun e => e.1 == link)).map Prod.snd

/-- The edits of a place on which neither its owner nor its reservation depends. -/
inductive Edit (hub : Hub) (p : Place) : Place → Prop
  | addAlias (other : String) (hfresh : hub.places.contains other = false)
      (hunused : hub.ownerOfAlias other = none) :
      Edit hub p { p with aliases := p.aliases.add other }
  | deleteAlias (other : String) : Edit hub p { p with aliases := p.aliases.remove other }
  | setComment (comment : String) : Edit hub p { p with comment := comment }
  | addPattern {pattern : String} {rename : Option String} {m : ResourceMatch}
      (hm : ResourceMatch.parse pattern rename = .ok m) :
      Edit hub p { p with patterns := p.patterns ++ [m] }
  | deletePattern (test : ResourceMatch → Bool) :
      Edit hub p { p with patterns := p.patterns.eraseP test }
  | allow {owner : String} (user : String) (hheld : p.acquired = some owner) :
      Edit hub p { p with allowed := p.allowed.add user }

/-- The changes of places and reservations on an occasion. Each change on which an allocation may
depend includes a pass over the reservations. A handle comes to a place from what was published,
or waited to be attached, when the operation started. -/
inductive Move (o : Occasion) (hub : Hub) : Hub → Prop
  | edit {name : String} {p p' : Place} (hp : hub.places.get? name = some p)
      (he : Edit hub p p') : Move o hub (hub.storePlace (p'.touch o.now)).markDirty
  | retag {name : String} {p : Place} {tags : SortedMap String String}
      (hp : hub.places.get? name = some p) (htags : Tag.checkAll tags.toList = .ok ())
      (hfirst : hub.reservations = o.hub.reservations) :
      Move o hub (((hub.storePlace
        ({ p with tags := Place.setTags p.tags tags.toList }.touch o.now)).markDirty).schedule o.now)
  | add {name : String} (hfresh : hub.places.contains name = false)
      (hunused : hub.ownerOfAlias name = none) :
      Move o hub (((hub.storePlace (Place.new name o.now)).markDirty).schedule o.now)
  | addDefault {link : Nat} {h : Handle} {m : ResourceMatch}
      (hop : o.operation = .followUp link) (hwork : o.hub.nextWork link = some (.added h))
      (hplaces : hub.places = o.hub.places) (hnumeric : isNumeric h.path.group = true)
      (hfresh : hub.places.contains h.path.group = false)
      (hm : ResourceMatch.parse (defaultPattern h.path.group) none = .ok m) :
      Move o hub (((hub.storePlace
        { Place.new h.path.group o.now with patterns := [m] }).markDirty).schedule o.now)
  | delete (name : String) {token : Token} {address : Option String}
      (hop : o.operation = .request token address (.deletePlace name)) :
      Move o hub ((({ hub with places := hub.places.erase name }.tellPlaces
        (.deletedPlace name)).markDirty).schedule o.now)
  | acquire {name : String} {p : Place} {principal : String} {handles : List Handle}
      (hp : hub.places.get? name = some p)
      (hallowed : Run.acquisitionError hub p principal = none)
      (hdistinct : (handles.map Handle.path).Nodup)
      (hfree : ∀ h ∈ handles, hub.otherHolder name h.path = none)
      (hpublished : ∀ h ∈ handles, h ∈ o.hub.published) :
      Move o hub (hub.completeAcquisition o.now name principal handles)
  | release {name : String} {p : Place} (hp : hub.places.get? name = some p) :
      Move o hub (hub.completeRelease o.now name)
  | attach {name : String} {p : Place} {h : Handle} (hp : hub.places.get? name = some p)
      (hheld : p.acquired.isSome) (hnew : p.holdsPath h.path = false)
      (hfree : hub.otherHolder name h.path = none) {link : Nat}
      (hwork : o.hub.nextWork link = some (.added h)) : Move o hub (hub.attach o.now name h)
  | replace {name : String} {h : Handle} {hub' : Hub}
      (hr : hub.replaceHeld o.now name h = some hub') (hpublished : h ∈ o.hub.published) :
      Move o hub hub'
  | republish (h : Handle) : Move o hub (hub.publishHolders h)
  | reserve {token : Token} {address : Option String} {filters : Filters} {prio : Double}
      (hop : o.operation = .request token address (.reserve filters prio)) (owner : String) :
      Move o hub ({ hub with
        reservations := hub.reservations.insert token
          (Reservation.new token owner filters prio o.now hub.settings.reservationTimeout)
        }.schedule o.now)
  | cancel {token : Token} {address : Option String} {text : String} {r : Reservation}
      (hop : o.operation = .request token address (.cancel text))
      (hr : hub.findReservation text = .ok r) :
      Move o hub ({ hub with reservations := hub.reservations.erase r.token }.schedule o.now)
  | poll {token : Token} {r : Reservation} (hr : hub.reservations.get? token = some r)
      (hlive : r.state.isTerminal = false) :
      Move o hub { hub with
        reservations := hub.reservations.insert r.token
          (r.refresh o.now hub.settings.reservationTimeout) }
  | schedule : Move o hub (hub.schedule o.now)
  | subscribe (id : Nat) (enable : Bool) : Move o hub (hub.followPlaces id enable)
  | retries (b : RetryBudget) {readings : List Nat} (hop : o.operation = .synchronize readings) :
      Move o hub { hub with retries := b }

/-- Exchanges and moves, with the commands that are tried. An operation changes the reservations
at most once. -/
inductive Passage (o : Occasion) (tells : Bool) (hub : Hub) : List Attempt → Hub → Prop
  | refl : Passage o tells hub [] hub
  | exchange {l l' : List Attempt} {hub₁ hub₂ : Hub} (h : Passage o tells hub l hub₁)
      (hx : Exchange tells hub₁ l' hub₂) : Passage o tells hub (l ++ l') hub₂
  | move {l : List Attempt} {hub₁ hub₂ : Hub} (h : Passage o tells hub l hub₁)
      (hm : Move o hub₁ hub₂) (honce : hub₁.reservations = o.hub.reservations ∨
        hub₂.reservations = hub₁.reservations) : Passage o tells hub l hub₂

/-! ## Chains -/

theorem Exchange.trans {tells : Bool} {hub hub₁ hub₂ : Hub} {l l' : List Attempt}
    (h : Exchange tells hub l hub₁) (h' : Exchange tells hub₁ l' hub₂) :
    Exchange tells hub (l ++ l') hub₂ := by
  induction h' with
  | refl => simpa using h
  | stir _ hs ih => exact ih.stir hs
  | settle _ ih =>
    rw [← List.append_assoc]
    exact ih.settle

theorem Passage.trans {o : Occasion} {tells : Bool} {hub hub₁ hub₂ : Hub} {l l' : List Attempt}
    (h : Passage o tells hub l hub₁) (h' : Passage o tells hub₁ l' hub₂) :
    Passage o tells hub (l ++ l') hub₂ := by
  induction h' with
  | refl => simpa using h
  | exchange _ hx ih =>
    rw [← List.append_assoc]
    exact ih.exchange hx
  | move _ hm honce ih => exact ih.move hm honce

theorem Exchange.passage {o : Occasion} {tells : Bool} {hub hub' : Hub} {l : List Attempt}
    (h : Exchange tells hub l hub') : Passage o tells hub l hub' := by
  simpa using Passage.refl.exchange h

theorem Move.passage {o : Occasion} {tells : Bool} {hub hub' : Hub} (h : Move o hub hub')
    (honce : hub.reservations = o.hub.reservations ∨ hub'.reservations = hub.reservations) :
    Passage o tells hub [] hub' :=
  Passage.refl.move h honce

end Hub

end BoardFarm
