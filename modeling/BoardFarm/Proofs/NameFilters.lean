import BoardFarm.Proofs.TagOrigins

/-!
# Name filters

The name of a place is offered as the tag `name`, so that a reservation can ask for one place. It is
offered beside the other tags of the place, and a request may set a tag of this key like any other.
A place with such a tag is taken for the place that the tag names, though nothing else is.

* `Reservation.AskedName`: the name that a reservation asks for.
* `Station.Itinerary.name_filter`: which places a reservation for a name may have.
* `Station.mislabelled_board`: a place that is taken for another one.
-/

namespace BoardFarm

namespace Reservation

/-- The main group asks for the place of a name. -/
def AskedName (r : Reservation) (asked : String) : Prop :=
  ∃ main : SortedMap String String, r.filters.get? mainGroup = some main ∧
    main.get? "name" = some asked

theorem AskedName.mem_mainTags {r : Reservation} {asked : String} (h : r.AskedName asked) :
    (⟨"name", asked⟩ : Tag) ∈ r.mainTags := by
  obtain ⟨main, hmain, hget⟩ := h
  unfold mainTags
  rw [hmain]
  exact List.mem_map.mpr ⟨("name", asked), SortedMap.mem_toList_iff.mpr hget, rfl⟩

end Reservation

namespace Station

variable {settings : HubSettings} {directory : Option StateDirectory} {start s : Station}
  {l : List (Station × Turn)}

/-- Behind some turns, and whenever the outcome of one of their commands has become known: a
reservation that asks for a name has the place of this name, or a place to which a start or an
accepted request has given the name as a tag. -/
theorem Itinerary.name_filter (h : Station.start settings directory = .ok start)
    (hi : Itinerary start l s) {hub : Hub}
    (hreached : hub = s.hub ∨ ∃ e ∈ l, ∃ a ∈ e.2.attempts, hub = a.hub) {token : Token}
    {r : Reservation} (hr : hub.reservations.get? token = some r) {asked name : String}
    (hasked : r.AskedName asked) (hname : name ∈ r.allocatedPlaces) :
    name = asked ∨ Given start l name ⟨"name", asked⟩ := by
  rcases hi.asked h hreached hr hname _ hasked.mem_mainTags with hgiven | he
  · exact Or.inr hgiven
  · have hsame : asked = name := congrArg Tag.value he
    exact Or.inl hsame.symm

/-! ## A place that is taken for another one -/

/-- A board is tagged with the name of a rack. Then a user asks for the rack. -/
def labelScenes : List Scene :=
  [⟨0, .event (.clientOpens (some "desk")), []⟩,
   ⟨0, .message 0 (.startup "alice" "1"), []⟩,
   ⟨1, .request (Identifier.ofNat .reservation 1) none (.addPlace "board"), []⟩,
   ⟨2, .request (Identifier.ofNat .reservation 2) none (.addPlace "rack"), []⟩,
   ⟨3, .request (Identifier.ofNat .reservation 3) none
      (.setTags "board" (SortedMap.ofList [("name", "rack")])), []⟩,
   ⟨4, .request (Identifier.ofNat .reservation 4) (some "desk")
      (.reserve (SortedMap.ofList [("main", SortedMap.ofList [("name", "rack")])]) ⟨0⟩), []⟩]

/-- The station behind these scenes. -/
def labelled : Station := (empty.play labelScenes).2

theorem askedName_labelled :
    ∃ r, labelled.hub.reservations.get? (Identifier.ofNat .reservation 4) = some r ∧
      r.AskedName "rack" ∧ r.allocatedPlaces = ["board"] := by
  have hbooked : (labelled.hub.reservations.get? (Identifier.ofNat .reservation 4)).map
      (fun r => (r.filters.get? Reservation.mainGroup, r.allocatedPlaces)) =
        some (some (SortedMap.ofList [("name", "rack")]), ["board"]) := by
    decide +kernel
  obtain ⟨r, hr, he⟩ := Option.map_eq_some_iff.mp hbooked
  obtain ⟨hmain, hplaces⟩ := Prod.mk.inj he
  exact ⟨r, hr, ⟨_, hmain, by decide +kernel⟩, hplaces⟩

/-- What the request has given the board is all that its reservation for the rack goes back to. -/
theorem name_filter_labelled : Given empty (empty.stages labelScenes) "board" ⟨"name", "rack"⟩ := by
  have hstart : Station.start ⟨1000, 1000⟩ none = .ok empty := rfl
  obtain ⟨r, hr, hasked, hplaces⟩ := askedName_labelled
  have hname : "board" ∈ r.allocatedPlaces := by
    rw [hplaces]
    exact List.mem_cons_self ..
  rcases Itinerary.name_filter hstart (itinerary_stages empty labelScenes) (Or.inl rfl) hr hasked
    hname with he | hgiven
  · exact absurd he (by decide)
  · exact hgiven

/-- The reservation for the rack has the board, and the rack is free. -/
theorem mislabelled_board :
    Station.start ⟨1000, 1000⟩ none = .ok empty ∧
      Course empty (empty.play labelScenes).1 labelled ∧
      (∃ r, labelled.hub.reservations.get? (Identifier.ofNat .reservation 4) = some r ∧
        r.AskedName "rack" ∧ "board" ∈ r.allocatedPlaces) ∧
      (labelled.hub.places.get? "rack").map (fun p => (p.acquired, p.reservation)) =
        some (none, none) := by
  obtain ⟨r, hr, hasked, hplaces⟩ := askedName_labelled
  refine ⟨rfl, course_play empty labelScenes, ⟨r, hr, hasked, ?_⟩, by decide +kernel⟩
  rw [hplaces]
  exact List.mem_cons_self ..

end Station

end BoardFarm
