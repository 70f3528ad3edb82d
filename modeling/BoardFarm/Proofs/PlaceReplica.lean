import BoardFarm.Proofs.ClientCopy
import BoardFarm.Proofs.PublishedResources

/-!
# Copies of the places

A client that follows places can keep a copy of them: it starts empty where its subscription was
switched on, and takes over every update that it has received since. The copy is always equal to
what the hub would show, for a place is told of with every write, and behind it.

* `ClientSession.placeCopy`: the copy of a client.
* `ClientSession.Follows`: the copy agrees with a table of places.
* `Hub.Write.replicated`, `Hub.Exchange.replicated`: agreement survives.
* `Station.Course.placeCopy_eq`: the copies throughout a course.
-/

namespace BoardFarm

/-- What an update does to a copy of the places. -/
def Update.intoPlaces (copy : SortedMap String PlaceView) : Update → SortedMap String PlaceView
  | .place v => copy.insert v.name v
  | .deletedPlace name => copy.erase name
  | .resource _ => copy
  | .deletedResource _ => copy

theorem Update.intoPlaces_of_not {u : Update} (h : u.concernsPlaces = false)
    (copy : SortedMap String PlaceView) : u.intoPlaces copy = copy := by
  cases u with
  | place v => cases h
  | deletedPlace name => cases h
  | resource v => rfl
  | deletedResource path => rfl

namespace ClientSession

/-- The copy of the places that a client keeps, starting empty behind a number of messages. -/
def placeCopy (c : ClientSession) (start : Nat) : SortedMap String PlaceView :=
  c.copy Update.intoPlaces SortedMap.empty start

/-- While the client is connected and follows places, its copy is a table of places. -/
def Follows (c : ClientSession) (table : SortedMap String PlaceView) : Prop :=
  c.Keeps Update.intoPlaces SortedMap.empty ClientSession.places table

theorem Follows.spared {c c' : ClientSession} {table : SortedMap String PlaceView}
    (h : c.Follows table) (hs : c.Spared c') : c'.Follows table := by
  obtain ⟨l, hl, hnews⟩ := hs.sent
  have hignored : (l.flatMap ClientMessage.updates).foldl Update.intoPlaces table = table := by
    apply foldl_ignored
    intro u hu
    obtain ⟨m, hm, hu⟩ := List.mem_flatMap.mp hu
    exact Update.intoPlaces_of_not (hnews m hm u hu)
  have happ := Keeps.append h hs.connected hs.places hl
  rw [hignored] at happ
  exact happ

/-- A subscriber that is told of a change takes it over. -/
theorem Follows.tellPlaces {c : ClientSession} {table : SortedMap String PlaceView}
    (h : c.Follows table) (u : Update) : (c.tellPlaces u).Follows (u.intoPlaces table) :=
  Keeps.tell h u (fun _ => rfl)

/-- A new subscriber starts with all places. -/
theorem Follows.subscribePlaces {c : ClientSession} {table : SortedMap String PlaceView}
    (h : c.Follows table) (enable : Bool) {views : List PlaceView}
    (hviews : (views.map Update.place).foldl Update.intoPlaces SortedMap.empty = table) :
    (c.subscribePlaces enable views).Follows table := by
  unfold ClientSession.subscribePlaces
  split
  · exact h
  · obtain ⟨l, hl, hupdates⟩ := c.sent_sendUpdates (views.map Update.place)
    rw [← hupdates] at hviews
    exact keeps_of_start rfl hl hviews
  · intro hconnected start hstart
    cases hstart

end ClientSession

namespace Hub

/-- The places as clients are shown them, by name. -/
def placeTable (hub : Hub) : SortedMap String PlaceView := hub.places.mapValues (fun _ p => p.view)

/-- Every client that follows places has a copy of them. -/
def Replicated (hub : Hub) : Prop :=
  ∀ id c, hub.clients.get? id = some c → c.Follows hub.placeTable

theorem values_placeTable (hub : Hub) : hub.placeTable.values = hub.placeViews := by
  unfold placeTable placeViews SortedMap.values SortedMap.mapValues
  rw [List.map_map, List.map_map]
  rfl

/-- Taking over all places one after another gives the table of the places. -/
theorem foldl_placeViews {hub : Hub} (hn : hub.Named) :
    (hub.placeViews.map Update.place).foldl Update.intoPlaces SortedMap.empty =
      hub.placeTable := by
  have hlist : (hub.placeViews.map Update.place).foldl Update.intoPlaces SortedMap.empty =
      SortedMap.ofList (hub.placeViews.map (fun v => (v.name, v))) := by
    unfold SortedMap.ofList
    rw [List.foldl_map, List.foldl_map]
    rfl
  have hmem : ∀ k v, (k, v) ∈ hub.placeViews.map (fun v => (v.name, v)) ↔
      hub.placeTable.get? k = some v := by
    intro k v
    unfold placeTable placeViews
    rw [SortedMap.get?_mapValues, List.map_map, List.mem_map, Option.map_eq_some_iff]
    constructor
    · rintro ⟨p, hp, he⟩
      cases he
      exact ⟨p, hn.get?_name hp, rfl⟩
    · rintro ⟨p, hp, rfl⟩
      refine ⟨p, SortedMap.mem_values_iff.mpr ⟨k, hp⟩, ?_⟩
      show (p.name, p.view) = (k, p.view)
      rw [hn k p hp]
  rw [hlist]
  apply SortedMap.ext_get?
  intro k
  apply Option.ext
  intro v
  rw [SortedMap.get?_ofList_iff, hmem]
  intro k v w hv hw
  rw [hmem] at hv hw
  rw [hv] at hw
  exact Option.some.inj hw

theorem Replicated.tellPlaces {hub : Hub} (h : hub.Replicated) (u : Update) {id : Nat}
    {c : ClientSession} (hc : (hub.tellPlaces u).clients.get? id = some c) :
    c.Follows (u.intoPlaces hub.placeTable) := by
  obtain ⟨c₀, hc₀, rfl⟩ := SortedMap.get?_mapValues_eq_some_iff.mp hc
  exact (h id c₀ hc₀).tellPlaces u

/-- Every write is told, and behind it. -/
theorem Write.replicated {hub hub' : Hub} (hw : Write hub hub') (hn : hub.Named)
    (h : hub.Replicated) : hub'.Replicated := by
  cases hw with
  | store p =>
    intro id c hc
    have htable : (hub.storePlace p).placeTable =
        (Update.place p.view).intoPlaces hub.placeTable :=
      SortedMap.mapValues_insert hub.places p.name p (fun _ p => p.view)
    rw [htable]
    exact h.tellPlaces _ hc
  | erase name =>
    intro id c hc
    have htable : (hub.places.erase name).mapValues (fun _ p => p.view) =
        (Update.deletedPlace name).intoPlaces hub.placeTable :=
      SortedMap.mapValues_erase hub.places name (fun _ p => p.view)
    show c.Follows ((hub.places.erase name).mapValues (fun _ p => p.view))
    rw [htable]
    exact h.tellPlaces _ hc
  | @tell p hp =>
    intro id c hc
    have htable : (Update.place p.view).intoPlaces hub.placeTable = hub.placeTable := by
      apply SortedMap.ext_get?
      intro k
      refine (SortedMap.get?_insert hub.placeTable p.name k p.view).trans ?_
      split
      · rename_i hk
        unfold placeTable
        rw [SortedMap.get?_mapValues, ← hk, hn.get?_name hp]
        rfl
      · rfl
    show c.Follows hub.placeTable
    rw [← htable]
    exact h.tellPlaces _ hc
  | plan rs b dirty => exact h
  | follow id enable =>
    intro id' c hc
    obtain ⟨c₀, hc₀, rfl | rfl⟩ := client_of_withClient hc
    · exact h id' c hc₀
    · exact (h id' c₀ hc₀).subscribePlaces enable (foldl_placeViews hn)

theorem Writes.replicated {hub hub' : Hub} (hw : Writes hub hub') (hn : hub.Named)
    (h : hub.Replicated) : hub'.Replicated := by
  induction hw with
  | refl => exact h
  | tail hw hlast ih => exact hlast.replicated (Writes.named hw hn) ih

/-- Nothing that happens while an operation waits concerns the copies of places. -/
theorem Quiet.replicated {hub hub' : Hub} (hq : Quiet hub hub') (h : hub.Replicated) :
    hub'.Replicated := by
  intro id c' hc'
  have htable : hub'.placeTable = hub.placeTable := by
    unfold placeTable
    rw [hq.places]
  rw [htable]
  obtain ⟨c, hc | ⟨address, rfl⟩, hs⟩ := hq.clients hc'
  · exact (h id c hc).spared hs
  · -- a new client follows no places
    intro _ start hplaces
    rw [hs.places] at hplaces
    cases hplaces

theorem Passage.replicated {o : Occasion} {tells : Bool} {hub hub' : Hub} {l : List Attempt}
    (hp : Passage o tells hub l hub') (hn : hub.Named) (h : hub.Replicated) :
    hub'.Replicated := by
  induction hp with
  | refl => exact h
  | exchange _ hx ih => exact hx.quiet.replicated ih
  | move hp hm _ ih => exact Writes.replicated hm.writes (hp.named hn) ih

end Hub

/-! ## Courses -/

namespace Station

/-- Throughout a course the copy of a client that follows places is equal to what the hub shows
of them. -/
theorem Course.placeCopy_eq {settings : HubSettings} {directory : Option StateDirectory}
    {start s : Station} {turns : List Turn} (h : Station.start settings directory = .ok start)
    (hc : Course start turns s) {id : Nat} {c : ClientSession}
    (hget : s.hub.clients.get? id = some c) (hconnected : c.connected = true) {n : Nat}
    (hplaces : c.places = some n) :
    c.placeCopy n = s.hub.placeTable ∧ (c.placeCopy n).values = s.hub.placeViews := by
  have hnew : start.hub.Replicated := by
    obtain ⟨places, hhub, _⟩ := start_ok h
    intro id c hget
    rw [hhub] at hget
    cases hget
  have hall : s.hub.Named ∧ s.hub.Filed ∧ s.hub.Replicated := by
    refine hc.invariant (P := fun hub => hub.Named ∧ hub.Filed ∧ hub.Replicated)
      ⟨named_start h, filed_start h, hnew⟩ ?_ ?_
    · rintro hub dirty ⟨hn, hf, hr⟩
      exact ⟨hn, hf.shrink (.of_eq rfl rfl), hr⟩
    · rintro ω react around now op hub ⟨hn, hf, hr⟩
      have hp := Run.perform_passes react now op around hn hf.nodup_published
      exact ⟨hp.named hn, hp.filed hf, hp.replicated hn hr⟩
  have hcopy : c.placeCopy n = s.hub.placeTable := (hall.2.2 id c hget hconnected n hplaces).2
  refine ⟨hcopy, ?_⟩
  rw [hcopy]
  exact Hub.values_placeTable s.hub

/-- In the small laboratory the user's copy shows the board with its owner and the relay. -/
theorem placeCopy_lab :
    (lab.hub.clients.get? 0).map (fun c => (c.connected, c.places)) = some (true, some 0) ∧
      ∀ c, lab.hub.clients.get? 0 = some c →
        c.placeCopy 0 = lab.hub.placeTable ∧ (c.placeCopy 0).values = lab.hub.placeViews := by
  have hstart : Station.start ⟨1000, 1000⟩ none = .ok empty := rfl
  have hstate : (lab.hub.clients.get? 0).map (fun c => (c.connected, c.places)) =
      some (true, some 0) := by decide +kernel
  refine ⟨hstate, ?_⟩
  intro c hget
  rw [hget] at hstate
  obtain ⟨hconnected, hplaces⟩ := Prod.mk.inj (Option.some.inj hstate)
  exact Course.placeCopy_eq hstart (course_play empty labScenes) hget hconnected hplaces

end Station

end BoardFarm
