import BoardFarm.Proofs.Assignment
import BoardFarm.Proofs.PublishedResources

/-!
# Places and their reservations

A place and its reservation name one another. The two entries may come apart for a moment, but
every move that may break the link ends with a pass, and a pass restores it from what is known
of the reservations alone: that each has one place or none, and no two have the same.

* `Hub.Planned`: what holds of the reservations, whatever has become of the places.
* `Hub.Fits`: the reservations behind the steps of a pass suit the places.
* `Hub.Linked`: the link between places and reservations.
* `Hub.linked_schedule`: a pass restores the link.
* `Station.Course.reservation_link`: the link throughout a course.
-/

namespace BoardFarm

/-- A reservation has a place: it is allocated or acquired, and its only allocation is the place
for the main group. -/
def Reservation.Has (r : Reservation) (name : String) : Prop :=
  r.state.hasPlace = true ∧
    r.allocations = SortedMap.ofList [(Reservation.mainGroup, [name])]

theorem Reservation.Has.allocatedPlaces {r : Reservation} {name : String} (h : r.Has name) :
    r.allocatedPlaces = [name] := by
  unfold Reservation.allocatedPlaces
  rw [h.2]
  rfl

theorem Reservation.Has.unique {r : Reservation} {name name' : String} (h : r.Has name)
    (h' : r.Has name') : name = name' := by
  have he := h.allocatedPlaces.symm.trans h'.allocatedPlaces
  exact List.singleton_inj.mp he

/-- A reservation without a place has no allocations, any other has exactly one place. -/
def Reservation.Formed (r : Reservation) : Prop :=
  r.state.hasPlace = false ∧ r.allocations = SortedMap.empty ∨ ∃ name, r.Has name

theorem Reservation.Formed.exists_has {r : Reservation} (h : r.Formed)
    (hplace : r.state.hasPlace = true) : ∃ name, r.Has name := by
  rcases h with ⟨hidle, _⟩ | hhas
  · rw [hidle] at hplace
    cases hplace
  · exact hhas

theorem Reservation.Formed.has_of_mem {r : Reservation} (h : r.Formed)
    (hplace : r.state.hasPlace = true) {name : String} (hname : name ∈ r.allocatedPlaces) :
    r.Has name := by
  obtain ⟨name', hhas⟩ := h.exists_has hplace
  rw [hhas.allocatedPlaces, List.mem_singleton] at hname
  exact hname ▸ hhas

namespace Hub

/-- Reservations are stored under their tokens, each has one place or none, and no two have the
same place. -/
structure Planned (rs : SortedMap Token Reservation) : Prop where
  keyed : ∀ {t : Token} {r : Reservation}, rs.get? t = some r → r.token = t
  formed : ∀ {t : Token} {r : Reservation}, rs.get? t = some r → r.Formed
  apart : ∀ {t t' : Token} {r r' : Reservation} {name : String}, rs.get? t = some r →
    rs.get? t' = some r' → r.Has name → r'.Has name → t = t'

/-- The places of reservations exist, and a reservation is acquired just if its place is. -/
structure Fits (places : SortedMap String Place) (rs : SortedMap Token Reservation) : Prop
    extends Planned rs where
  suits : ∀ {t : Token} {r : Reservation} {name : String}, rs.get? t = some r → r.Has name →
    ∃ p, places.get? name = some p ∧ (r.state = .acquired ↔ p.acquired.isSome)

/-- A place has a reservation just if that reservation has the place. -/
structure Linked (hub : Hub) : Prop where
  fits : Fits hub.places hub.reservations
  link : ∀ {name : String} {p : Place} {t : Token}, hub.places.get? name = some p →
    (p.reservation = some t ↔ ∃ r, hub.reservations.get? t = some r ∧ r.Has name)

/-! ## The steps of a pass -/

variable {places : SortedMap String Place} {rs : SortedMap Token Reservation}

theorem Planned.filter (h : Planned rs) (test : Token → Reservation → Bool) :
    Planned (rs.filter test) := by
  have hget : ∀ {t : Token} {r : Reservation}, (rs.filter test).get? t = some r →
      rs.get? t = some r := by
    intro t r hr
    rw [SortedMap.get?_filter, Option.filter_eq_some_iff] at hr
    exact hr.1
  exact ⟨fun hr => h.keyed (hget hr), fun hr => h.formed (hget hr),
    fun hr hr' => h.apart (hget hr) (hget hr')⟩

/-- A step that keeps tokens and gives no reservation a place that it did not have. -/
theorem Planned.mapValues (h : Planned rs) {f : Token → Reservation → Reservation}
    (htoken : ∀ t r, (f t r).token = r.token)
    (hform : ∀ t r, r.Formed → (f t r).Formed ∧ ∀ name, (f t r).Has name → r.Has name) :
    Planned (rs.mapValues f) := by
  have hget : ∀ {t : Token} {r' : Reservation}, (rs.mapValues f).get? t = some r' →
      ∃ r, rs.get? t = some r ∧ f t r = r' := SortedMap.get?_mapValues_eq_some_iff.mp
  refine ⟨?_, ?_, ?_⟩
  · intro t r' hr'
    obtain ⟨r, hr, rfl⟩ := hget hr'
    rw [htoken]
    exact h.keyed hr
  · intro t r' hr'
    obtain ⟨r, hr, rfl⟩ := hget hr'
    exact (hform t r (h.formed hr)).1
  · intro t₁ t₂ r₁' r₂' name h₁ h₂ hh₁ hh₂
    obtain ⟨r₁, hr₁, rfl⟩ := hget h₁
    obtain ⟨r₂, hr₂, rfl⟩ := hget h₂
    exact h.apart hr₁ hr₂ ((hform t₁ r₁ (h.formed hr₁)).2 name hh₁)
      ((hform t₂ r₂ (h.formed hr₂)).2 name hh₂)

theorem formed_expire (settings : HubSettings) (now : Nat) {r : Reservation} (h : r.Formed) :
    (expire settings now r).Formed ∧ ∀ name, (expire settings now r).Has name → r.Has name := by
  unfold expire
  split
  · refine ⟨Or.inl ⟨rfl, rfl⟩, ?_⟩
    rintro name ⟨hplace, _⟩
    cases hplace
  · exact ⟨h, fun name hn => hn⟩

/-- A reservation that keeps its place when it follows it suits the place. -/
theorem formed_follow (settings : HubSettings) (places : SortedMap String Place) (now : Nat)
    {r : Reservation} (h : r.Formed) :
    (follow settings places now r).Formed ∧
      ∀ name, (follow settings places now r).Has name → r.Has name ∧
        ∃ p, places.get? name = some p ∧
          ((follow settings places now r).state = .acquired ↔ p.acquired.isSome) := by
  rcases h with ⟨hidle, hempty⟩ | ⟨name, hname⟩
  · unfold follow
    simp only [hidle, Bool.not_false, if_true]
    refine ⟨Or.inl ⟨hidle, hempty⟩, ?_⟩
    rintro name ⟨hplace, _⟩
    rw [hidle] at hplace
    cases hplace
  · unfold follow
    simp only [hname.1, Bool.not_true, Bool.false_eq_true, if_false, hname.allocatedPlaces,
      List.any_cons, List.any_nil, Bool.or_false]
    split
    · refine ⟨Or.inl ⟨rfl, rfl⟩, ?_⟩
      rintro name' ⟨hplace, _⟩
      cases hplace
    · rename_i hexists
      obtain ⟨p, hp⟩ : ∃ p, places.get? name = some p :=
        SortedMap.contains_eq_true_iff.mp (by simpa using hexists)
      have hkeep : ∀ {r' : Reservation}, r'.state.hasPlace = true →
          r'.allocations = r.allocations → (r'.state = .acquired ↔ p.acquired.isSome) →
          r'.Formed ∧ ∀ name', r'.Has name' → r.Has name' ∧
            ∃ q, places.get? name' = some q ∧ (r'.state = .acquired ↔ q.acquired.isSome) := by
        intro r' hplace halloc hstate
        have hr' : r'.Has name := ⟨hplace, halloc.trans hname.2⟩
        refine ⟨Or.inr ⟨name, hr'⟩, ?_⟩
        intro name' hname'
        rw [hname'.unique hr']
        exact ⟨hname, p, hp, hstate⟩
      have hacquired : isAcquired places name = p.acquired.isSome := by
        unfold isAcquired
        rw [hp]
      rw [hacquired]
      split
      · rename_i ha
        exact hkeep rfl rfl (by simp [Reservation.refresh, ha])
      · rename_i ha
        exact hkeep rfl rfl (by simp [ha])

theorem token_follow (settings : HubSettings) (places : SortedMap String Place) (now : Nat)
    (r : Reservation) : (follow settings places now (expire settings now r)).token = r.token := by
  have hexpire : (expire settings now r).token = r.token := by
    unfold expire
    split <;> rfl
  rw [← hexpire]
  unfold follow
  split
  · rfl
  · split
    · rfl
    · split <;> rfl

theorem fits_follow (settings : HubSettings) (places : SortedMap String Place) (now : Nat)
    (h : Planned rs) :
    Fits places (rs.mapValues (fun _ r =>
      follow settings places now (expire settings now r))) := by
  refine ⟨h.mapValues (fun _ r => token_follow settings places now r) ?_, ?_⟩
  · intro t r hr
    obtain ⟨he, hehas⟩ := formed_expire settings now hr
    obtain ⟨hf, hfhas⟩ := formed_follow settings places now he
    exact ⟨hf, fun name hn => hehas name (hfhas name hn).1⟩
  · intro t r' name hr' hn
    obtain ⟨r, hr, rfl⟩ := SortedMap.get?_mapValues_eq_some_iff.mp hr'
    have he := (formed_expire settings now (h.formed hr)).1
    exact ((formed_follow settings places now he).2 name hn).2

/-! ## Free places -/

theorem nodup_freePlaces (rs : SortedMap Token Reservation)
    (hn : ∀ k p, places.get? k = some p → p.name = k) :
    ((freePlaces places rs).map TagSet.name).Nodup := by
  have hnodup : (places.values.map Place.name).Nodup := by
    rw [map_name_values hn]
    exact places.keys_nodup
  unfold freePlaces
  rw [List.map_map]
  exact hnodup.sublist (List.filter_sublist.map _)

/-- A free place exists, is not acquired, and no reservation has it. -/
theorem free_of_mem_freePlaces (hn : ∀ k p, places.get? k = some p → p.name = k) {name : String}
    (h : name ∈ (freePlaces places rs).map TagSet.name) :
    (∃ p, places.get? name = some p ∧ p.acquired = none) ∧
      ∀ t r, rs.get? t = some r → ¬ r.Has name := by
  unfold freePlaces at h
  rw [List.map_map] at h
  obtain ⟨p, hp, rfl⟩ := List.mem_map.mp h
  obtain ⟨hp, hfree⟩ := List.mem_filter.mp hp
  obtain ⟨k, hk⟩ := SortedMap.mem_values_iff.mp hp
  have hname := hn k p hk
  simp only [Bool.and_eq_true, Bool.not_eq_true', List.contains_eq_mem,
    decide_eq_false_iff_not, Option.isNone_iff_eq_none] at hfree
  refine ⟨⟨p, ?_, hfree.1⟩, ?_⟩
  · show places.get? p.name = some p
    rw [hname]
    exact hk
  · intro t r hr hhas
    apply hfree.2
    unfold allocatedNames
    rw [List.mem_flatMap]
    refine ⟨r, List.mem_filter.mpr ⟨SortedMap.mem_values_iff.mpr ⟨t, hr⟩, hhas.1⟩, ?_⟩
    rw [hhas.allocatedPlaces]
    exact List.mem_singleton.mpr rfl

/-! ## Allocation -/

/-- An allocation leaves a reservation as it is, or gives a waiting one its assigned place. -/
theorem allocate_cases (settings : HubSettings) (now : Nat)
    (assignment : SortedMap String String) (r : Reservation) :
    allocate settings now assignment r = r ∨
      r.state = .waiting ∧ ∃ place, assignment.get? r.token.text = some place ∧
        (allocate settings now assignment r).token = r.token ∧
        (allocate settings now assignment r).state = .allocated ∧
        (allocate settings now assignment r).Has place := by
  unfold allocate
  split
  · rename_i hw
    split
    · exact Or.inl rfl
    · rename_i place hplace
      exact Or.inr ⟨hw, place, hplace, rfl, rfl, rfl, rfl⟩
  · exact Or.inl rfl

theorem Fits.allocate (hn : ∀ k p, places.get? k = some p → p.name = k) (h : Fits places rs)
    (settings : HubSettings) (now : Nat) :
    Fits places (rs.mapValues (fun _ r => allocate settings now
      (Scheduling.assign (freePlaces places rs) (wanted rs)) r)) := by
  have hnodup := nodup_freePlaces rs hn
  generalize hassign : Scheduling.assign (freePlaces places rs) (wanted rs) = assignment
  -- a reservation behind the step, with what it was and where its place comes from
  have hget : ∀ {t : Token} {r' : Reservation},
      (rs.mapValues (fun _ r => Hub.allocate settings now assignment r)).get? t = some r' →
      rs.get? t = some r' ∨ ∃ place, assignment.get? t.text = some place ∧ r'.token = t ∧
        r'.state = .allocated ∧ r'.Has place := by
    intro t r' hr'
    obtain ⟨r, hr, rfl⟩ := SortedMap.get?_mapValues_eq_some_iff.mp hr'
    rcases allocate_cases settings now assignment r with he | ⟨_, place, hplace, htoken, hnew⟩
    · rw [he]
      exact Or.inl hr
    · rw [h.keyed hr] at hplace htoken
      exact Or.inr ⟨place, hplace, htoken, hnew⟩
  have hfree : ∀ {t : Token} {place : String}, assignment.get? t.text = some place →
      (∃ p, places.get? place = some p ∧ p.acquired = none) ∧
        ∀ t r, rs.get? t = some r → ¬ r.Has place := by
    intro t place hplace
    rw [← hassign] at hplace
    exact free_of_mem_freePlaces hn (Scheduling.mem_places_of_assign hnodup hplace)
  refine ⟨⟨?_, ?_, ?_⟩, ?_⟩
  · intro t r' hr'
    rcases hget hr' with hold | ⟨_, _, htoken, _⟩
    · exact h.keyed hold
    · exact htoken
  · intro t r' hr'
    rcases hget hr' with hold | ⟨place, _, _, _, hhas⟩
    · exact h.formed hold
    · exact Or.inr ⟨place, hhas⟩
  · intro t₁ t₂ r₁ r₂ name hr₁ hr₂ hh₁ hh₂
    rcases hget hr₁ with hold₁ | ⟨place₁, hplace₁, _, _, hhas₁⟩
    · rcases hget hr₂ with hold₂ | ⟨place₂, hplace₂, _, _, hhas₂⟩
      · exact h.apart hold₁ hold₂ hh₁ hh₂
      · rw [hh₂.unique hhas₂] at hh₁
        exact absurd hh₁ ((hfree hplace₂).2 t₁ r₁ hold₁)
    · rcases hget hr₂ with hold₂ | ⟨place₂, hplace₂, _, _, hhas₂⟩
      · rw [hh₁.unique hhas₁] at hh₂
        exact absurd hh₂ ((hfree hplace₁).2 t₂ r₂ hold₂)
      · -- no place is assigned twice
        rw [← hh₁.unique hhas₁, ← hassign] at hplace₁
        rw [← hh₂.unique hhas₂, ← hassign] at hplace₂
        exact Identifier.text_inj (Scheduling.get?_assign_inj hnodup hplace₁ hplace₂)
  · intro t r' name hr' hh
    rcases hget hr' with hold | ⟨place, hplace, _, hstate, hhas⟩
    · exact h.suits hold hh
    · obtain ⟨p, hp, hnone⟩ := (hfree hplace).1
      rw [hh.unique hhas]
      exact ⟨p, hp, by simp [hstate, hnone]⟩

/-- The reservations behind a pass suit the places. -/
theorem fits_advance (hn : ∀ k p, places.get? k = some p → p.name = k) (h : Planned rs)
    (settings : HubSettings) (now : Nat) : Fits places (advance settings places now rs) :=
  (fits_follow settings places now (h.filter _)).allocate hn settings now

/-! ## Links -/

/-- The owner of a place is the reservation that has it. -/
theorem get?_owners (h : Planned rs) {name : String} {t : Token} :
    (owners rs).get? name = some t ↔ ∃ r, rs.get? t = some r ∧ r.Has name := by
  have hmem : ∀ {name : String} {t : Token},
      (name, t) ∈ (rs.values.filter (fun r => r.state.hasPlace)).flatMap (fun r =>
        r.allocatedPlaces.map (fun name => (name, r.token))) ↔
      ∃ r, rs.get? t = some r ∧ r.Has name := by
    intro name t
    rw [List.mem_flatMap]
    constructor
    · rintro ⟨r, hr, he⟩
      obtain ⟨hr, hplace⟩ := List.mem_filter.mp hr
      obtain ⟨t', hget⟩ := SortedMap.mem_values_iff.mp hr
      obtain ⟨name', hname', he'⟩ := List.mem_map.mp he
      obtain ⟨rfl, rfl⟩ := Prod.mk.inj he'
      refine ⟨r, ?_, (h.formed hget).has_of_mem hplace hname'⟩
      rw [h.keyed hget]
      exact hget
    · rintro ⟨r, hr, hhas⟩
      refine ⟨r, List.mem_filter.mpr ⟨SortedMap.mem_values_iff.mpr ⟨t, hr⟩, hhas.1⟩, ?_⟩
      rw [hhas.allocatedPlaces, h.keyed hr]
      exact List.mem_singleton.mpr rfl
  unfold owners
  rw [SortedMap.get?_ofList_iff, hmem]
  intro k v w hv hw
  obtain ⟨r, hr, hhas⟩ := hmem.mp hv
  obtain ⟨r', hr', hhas'⟩ := hmem.mp hw
  exact h.apart hr hr' hhas hhas'

theorem relink_spec (now : Nat) (owners : SortedMap String Token) (p : Place) :
    (relink now owners p).reservation = owners.get? p.name ∧
      (relink now owners p).acquired = p.acquired := by
  unfold relink
  split
  · rename_i he
    exact ⟨he, rfl⟩
  · exact ⟨rfl, rfl⟩

/-- A pass restores the link. -/
theorem linked_schedule {hub : Hub} (hn : hub.Named) (h : Planned hub.reservations) (now : Nat) :
    (hub.schedule now).Linked := by
  have hfits := fits_advance hn h hub.settings now
  have hplaces := places_schedule hn now
  refine ⟨⟨?_, ?_⟩, ?_⟩
  · rw [reservations_schedule]
    exact hfits.toPlanned
  · rw [reservations_schedule, hplaces]
    intro t r name hr hhas
    obtain ⟨p, hp, hstate⟩ := hfits.suits hr hhas
    refine ⟨_, SortedMap.get?_mapValues_eq_some_iff.mpr ⟨p, hp, rfl⟩, ?_⟩
    rw [(relink_spec _ _ p).2]
    exact hstate
  · rw [reservations_schedule, hplaces]
    intro name q t hq
    obtain ⟨p, hp, rfl⟩ := SortedMap.get?_mapValues_eq_some_iff.mp hq
    rw [(relink_spec _ _ p).1, hn name p hp]
    exact get?_owners hfits.toPlanned

/-! ## Moves -/

/-- A waiting reservation may be added, also in place of another one. -/
theorem Planned.insert_waiting (h : Planned rs) (t : Token) {r : Reservation} (htoken : r.token = t)
    (hstate : r.state = .waiting) (hempty : r.allocations = SortedMap.empty) :
    Planned (rs.insert t r) := by
  have hidle : r.state.hasPlace = false := by rw [hstate]; rfl
  have hget : ∀ {t' : Token} {r' : Reservation}, (rs.insert t r).get? t' = some r' →
      t' = t ∧ r' = r ∨ t' ≠ t ∧ rs.get? t' = some r' := SortedMap.get?_insert_eq_some_iff.mp
  have hnot : ∀ name, ¬ r.Has name := by
    rintro name ⟨hplace, _⟩
    rw [hidle] at hplace
    cases hplace
  refine ⟨?_, ?_, ?_⟩
  · intro t' r' hr'
    rcases hget hr' with ⟨rfl, rfl⟩ | ⟨_, hold⟩
    · exact htoken
    · exact h.keyed hold
  · intro t' r' hr'
    rcases hget hr' with ⟨_, rfl⟩ | ⟨_, hold⟩
    · exact Or.inl ⟨hidle, hempty⟩
    · exact h.formed hold
  · intro t₁ t₂ r₁ r₂ name hr₁ hr₂ hh₁ hh₂
    rcases hget hr₁ with ⟨_, rfl⟩ | ⟨_, hold₁⟩
    · exact absurd hh₁ (hnot name)
    · rcases hget hr₂ with ⟨_, rfl⟩ | ⟨_, hold₂⟩
      · exact absurd hh₂ (hnot name)
      · exact h.apart hold₁ hold₂ hh₁ hh₂

/-- Where a deadline moves, nothing else of a reservation changes. -/
theorem Planned.exists_of_refreshed (h : Planned rs) {t t' : Token} {r r' : Reservation}
    (hr : rs.get? t = some r) {now delay : Nat}
    (hr' : (rs.insert r.token (r.refresh now delay)).get? t' = some r') :
    ∃ r₀ timeout, rs.get? t' = some r₀ ∧ r' = { r₀ with timeout := timeout } := by
  rcases SortedMap.get?_insert_eq_some_iff.mp hr' with ⟨rfl, rfl⟩ | ⟨_, hold⟩
  · rw [h.keyed hr]
    exact ⟨r, _, hr, rfl⟩
  · exact ⟨r', r'.timeout, hold, rfl⟩

theorem Planned.exists_refreshed (h : Planned rs) {t t' : Token} {r r₀ : Reservation}
    (hr : rs.get? t = some r) (hr₀ : rs.get? t' = some r₀) (now delay : Nat) :
    ∃ timeout, (rs.insert r.token (r.refresh now delay)).get? t' =
      some { r₀ with timeout := timeout } := by
  rw [h.keyed hr, SortedMap.get?_insert]
  split
  · rename_i he
    subst he
    rw [hr] at hr₀
    cases hr₀
    exact ⟨_, rfl⟩
  · exact ⟨r₀.timeout, hr₀⟩

/-- The deadline of a reservation may move. -/
theorem Planned.refresh (h : Planned rs) {t : Token} {r : Reservation} (hr : rs.get? t = some r)
    (now delay : Nat) : Planned (rs.insert r.token (r.refresh now delay)) := by
  refine ⟨?_, ?_, ?_⟩
  · intro t' r' hr'
    obtain ⟨r₀, _, hr₀, rfl⟩ := h.exists_of_refreshed hr hr'
    have hkeyed := h.keyed hr₀
    exact hkeyed
  · intro t' r' hr'
    obtain ⟨r₀, _, hr₀, rfl⟩ := h.exists_of_refreshed hr hr'
    have hformed := h.formed hr₀
    exact hformed
  · intro t₁ t₂ r₁ r₂ name hr₁ hr₂ hhas₁ hhas₂
    obtain ⟨q₁, _, hq₁, rfl⟩ := h.exists_of_refreshed hr hr₁
    obtain ⟨q₂, _, hq₂, rfl⟩ := h.exists_of_refreshed hr hr₂
    exact h.apart hq₁ hq₂ hhas₁ hhas₂

/-- The link survives where a place keeps its reservation and its owner. -/
theorem Linked.store {hub : Hub} (hn : hub.Named) (h : hub.Linked) {name : String} {p q : Place}
    (hp : hub.places.get? name = some p) (hname : q.name = p.name)
    (hreservation : q.reservation = p.reservation) (hacquired : q.acquired = p.acquired) :
    (hub.storePlace q).Linked := by
  have hget : ∀ k, (hub.storePlace q).places.get? k =
      if name = k then some q else hub.places.get? k := by
    intro k
    rw [← hn name p hp, ← hname]
    exact SortedMap.get?_insert ..
  refine ⟨⟨h.fits.toPlanned, ?_⟩, ?_⟩
  · intro t r k hr hhas
    obtain ⟨p', hp', hstate⟩ := h.fits.suits hr hhas
    rw [hget]
    split
    · rename_i hk
      subst hk
      rw [hp] at hp'
      cases hp'
      exact ⟨q, rfl, by rw [hacquired]; exact hstate⟩
    · exact ⟨p', hp', hstate⟩
  · intro k q' t hq'
    rw [hget] at hq'
    split at hq'
    · rename_i hk
      subst hk
      cases hq'
      rw [hreservation]
      exact h.link hp
    · exact h.link hq'

/-- The link survives where the deadline of a reservation moves. -/
theorem Linked.refresh {hub : Hub} (h : hub.Linked) {t : Token} {r : Reservation}
    (hr : hub.reservations.get? t = some r) (now delay : Nat) :
    Linked { hub with reservations := hub.reservations.insert r.token (r.refresh now delay) } := by
  have hplan := h.fits.toPlanned
  refine ⟨⟨hplan.refresh hr now delay, ?_⟩, ?_⟩
  · intro t' r' name hr' hhas
    obtain ⟨r₀, _, hr₀, rfl⟩ := hplan.exists_of_refreshed hr hr'
    have hhas₀ : r₀.Has name := hhas
    have hsuits := h.fits.suits hr₀ hhas₀
    exact hsuits
  · intro name p t' hp
    rw [h.link hp]
    constructor
    · rintro ⟨r₀, hr₀, hhas⟩
      obtain ⟨timeout, hr'⟩ := hplan.exists_refreshed hr hr₀ now delay
      exact ⟨{ r₀ with timeout := timeout }, hr', hhas⟩
    · rintro ⟨r', hr', hhas⟩
      obtain ⟨r₀, _, hr₀, rfl⟩ := hplan.exists_of_refreshed hr hr'
      exact ⟨r₀, hr₀, hhas⟩

theorem Linked.of_quiet {hub hub' : Hub} (hq : Quiet hub hub') (h : hub.Linked) :
    hub'.Linked := by
  obtain ⟨hfits, hlink⟩ := h
  refine ⟨?_, ?_⟩
  · rw [hq.places, hq.reservations]
    exact hfits
  · rw [hq.places, hq.reservations]
    exact hlink

theorem linked_stored {hub : Hub} (hn : hub.Named) (h : hub.Linked) (q : Place) (now : Nat) :
    (((hub.storePlace q).markDirty).schedule now).Linked := by
  have hw : Writes hub (hub.storePlace q).markDirty := writes_markDirty (.single (.store q))
  exact linked_schedule (hw.named hn) h.fits.toPlanned now

theorem linked_planned {hub : Hub} (hn : hub.Named) (h : Planned rs) (now : Nat) :
    ({ hub with reservations := rs }.schedule now).Linked := by
  have hn' : ({ hub with reservations := rs } : Hub).Named := hn
  exact linked_schedule hn' h now

/-- Every move keeps the link. -/
theorem Move.linked {o : Occasion} {hub hub' : Hub} (hn : hub.Named) (h : hub.Linked)
    (hm : Move o hub hub') : hub'.Linked := by
  cases hm with
  | @edit name p p' hp he =>
    have hstored : (hub.storePlace (p'.touch o.now)).Linked := by
      cases he <;> exact h.store hn hp rfl rfl rfl
    exact ⟨hstored.fits, hstored.link⟩
  | retag _ _ _ => exact linked_stored hn h _ o.now
  | add _ _ => exact linked_stored hn h _ o.now
  | addDefault => exact linked_stored hn h _ o.now
  | delete name =>
    have hw : Write hub _ := .erase name
    exact linked_schedule (Writes.named (writes_markDirty (.single hw)) hn) h.fits.toPlanned o.now
  | acquire hp =>
    unfold completeAcquisition
    rw [hp]
    exact linked_stored hn h _ o.now
  | release hp =>
    unfold completeRelease
    rw [hp]
    exact linked_stored hn h _ o.now
  | attach hp =>
    unfold Hub.attach
    rw [hp]
    exact h.store hn hp rfl rfl rfl
  | replace hr _ =>
    obtain ⟨p, old, hp, _, rfl⟩ := replaceHeld_eq_some hr
    exact h.store hn hp rfl rfl rfl
  | republish handle =>
    obtain ⟨clients, he⟩ := publishHolders_eq hub handle
    rw [he]
    exact ⟨h.fits, h.link⟩
  | @reserve token address filters prio _ owner =>
    exact linked_planned hn (h.fits.toPlanned.insert_waiting token rfl rfl rfl) o.now
  | cancel => exact linked_planned hn (h.fits.toPlanned.filter _) o.now
  | poll hr _ => exact h.refresh hr o.now _
  | schedule => exact linked_schedule hn h.fits.toPlanned o.now
  | subscribe id enable => exact ⟨h.fits, h.link⟩
  | retries b => exact ⟨h.fits, h.link⟩

end Hub

/-! ## Courses -/

namespace Station

theorem linked_start {settings : HubSettings} {directory : Option StateDirectory} {s : Station}
    (h : Station.start settings directory = .ok s) : s.hub.Linked := by
  obtain ⟨places, hhub, hplaces⟩ := start_ok h
  rw [hhub]
  refine ⟨⟨⟨?_, ?_, ?_⟩, ?_⟩, ?_⟩
  · intro t r hr
    cases hr
  · intro t r hr
    cases hr
  · intro t t' r r' name hr
    cases hr
  · intro t r name hr
    cases hr
  · intro name p t hp
    obtain ⟨_, _, _, _, hnone⟩ := hplaces name p hp
    rw [hnone]
    constructor
    · intro he
      cases he
    · rintro ⟨r, hr, _⟩
      cases hr

/-- Throughout a course, and whenever the outcome of a command becomes known: a reservation has
one existing place or no allocations, no two have the same place, a place has a reservation just
if that reservation has the place, and then the reservation is acquired just if the place is. -/
theorem Course.reservation_link {settings : HubSettings} {directory : Option StateDirectory}
    {start s : Station} {turns : List Turn} (h : Station.start settings directory = .ok start)
    (hc : Course start turns s) (hub : Hub)
    (hreached : hub = s.hub ∨ ∃ turn ∈ turns, ∃ a ∈ turn.attempts, hub = a.hub) :
    (∀ t r, hub.reservations.get? t = some r →
      (r.state.hasPlace = false → r.allocations = SortedMap.empty) ∧
      (r.state.hasPlace = true → ∃ name p,
        r.allocations = SortedMap.ofList [(Reservation.mainGroup, [name])] ∧
          hub.places.get? name = some p)) ∧
    (∀ t t' r r' name, hub.reservations.get? t = some r → hub.reservations.get? t' = some r' →
      r.Has name → r'.Has name → t = t') ∧
    (∀ name p t, hub.places.get? name = some p →
      (p.reservation = some t ↔ ∃ r, hub.reservations.get? t = some r ∧ r.Has name)) ∧
    ∀ name p t r, hub.places.get? name = some p → p.reservation = some t →
      hub.reservations.get? t = some r → (r.state = .acquired ↔ p.acquired.isSome) := by
  have hall := hc.kept h (linked_start h) (fun hq hl => hl.of_quiet hq)
    (fun hn hl hm => hm.linked hn hl)
  have hlinked : hub.Linked := by
    rcases hreached with rfl | ⟨turn, hturn, a, ha, rfl⟩
    · exact hall.1
    · exact hall.2 turn hturn a ha
  refine ⟨?_, ?_, fun name p t hp => hlinked.link hp, ?_⟩
  · intro t r hr
    rcases hlinked.fits.formed hr with ⟨hidle, hempty⟩ | ⟨name, hhas⟩
    · refine ⟨fun _ => hempty, fun hplace => ?_⟩
      rw [hidle] at hplace
      cases hplace
    · refine ⟨fun hidle => ?_, fun _ => ?_⟩
      · rw [hhas.1] at hidle
        cases hidle
      · obtain ⟨p, hp, _⟩ := hlinked.fits.suits hr hhas
        exact ⟨name, p, hhas.2, hp⟩
  · intro t t' r r' name hr hr' hhas hhas'
    exact hlinked.fits.apart hr hr' hhas hhas'
  · intro name p t r hp ht hr
    obtain ⟨r', hr', hhas⟩ := (hlinked.link hp).mp ht
    rw [hr] at hr'
    cases hr'
    obtain ⟨p', hp', hstate⟩ := hlinked.fits.suits hr hhas
    rw [hp] at hp'
    cases hp'
    exact hstate

/-- In the small laboratory the board and its reservation name one another. -/
theorem linked_lab :
    (lab.hub.places.get? "board").map Place.reservation =
        some (some (Identifier.ofNat .reservation 3)) ∧
      ∀ p t r, lab.hub.places.get? "board" = some p → p.reservation = some t →
        lab.hub.reservations.get? t = some r → (r.state = .acquired ↔ p.acquired.isSome) := by
  have hstart : Station.start ⟨1000, 1000⟩ none = .ok empty := rfl
  refine ⟨by decide +kernel, ?_⟩
  intro p t r
  have hlink := Course.reservation_link hstart (course_play empty labScenes) lab.hub (Or.inl rfl)
  exact hlink.2.2.2 "board" p t r

end Station

end BoardFarm
