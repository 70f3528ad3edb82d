import BoardFarm.Proofs.PublishedResources

/-!
# One owner

No resource path is held twice, neither by two places nor by one, and a free place holds
nothing. Three moves bring handles to a place. An acquisition and an attachment bring paths that
no other place holds and that differ from one another; a replacement keeps the paths. So the
exporters may publish, forget and restart as they like.

* `SoleOwner`: the invariant of the places.
* `Hub.Move.soleOwner`: every move keeps it.
* `Station.Course.nodup_held`: what holds throughout a course.
-/

namespace BoardFarm

/-- No place holds a path twice, no two places hold the same path, and a free place holds
nothing. -/
structure SoleOwner (places : SortedMap String Place) : Prop where
  once : ∀ {k : String} {p : Place}, places.get? k = some p → (p.held.map Handle.path).Nodup
  apart : ∀ {k k' : String} {p p' : Place}, places.get? k = some p → places.get? k' = some p' →
    k ≠ k' → ∀ h ∈ p.held, p'.holdsPath h.path = false
  free : ∀ {k : String} {p : Place}, places.get? k = some p → p.acquired = none →
    p.held = [] ∧ p.allowed = SortedMap.empty

namespace Place

theorem holdsPath_eq_true_iff {p : Place} {path : ResourcePath} :
    p.holdsPath path = true ↔ path ∈ p.held.map Handle.path := by
  unfold holdsPath
  simp

theorem holdsPath_eq_false_iff {p : Place} {path : ResourcePath} :
    p.holdsPath path = false ↔ path ∉ p.held.map Handle.path := by
  rw [← holdsPath_eq_true_iff, Bool.not_eq_true]

/-- The same owner with the same handles; a held place may allow further users. -/
structure Retains (p q : Place) : Prop where
  acquired : q.acquired = p.acquired
  held : q.held = p.held
  allowed : p.acquired = none → q.allowed = p.allowed

end Place

namespace SoleOwner

variable {places : SortedMap String Place}

/-- A place may come to hold paths that no other place holds. -/
theorem insert (h : SoleOwner places) (k : String) {q : Place}
    (honce : (q.held.map Handle.path).Nodup)
    (hapart : ∀ k' p, places.get? k' = some p → k' ≠ k → ∀ h ∈ q.held,
      p.holdsPath h.path = false)
    (hfree : q.acquired = none → q.held = [] ∧ q.allowed = SortedMap.empty) :
    SoleOwner (places.insert k q) := by
  have hget : ∀ {k' : String} {p : Place}, (places.insert k q).get? k' = some p →
      k' = k ∧ p = q ∨ k' ≠ k ∧ places.get? k' = some p := SortedMap.get?_insert_eq_some_iff.mp
  refine ⟨?_, ?_, ?_⟩
  · intro k' p hp
    rcases hget hp with ⟨_, rfl⟩ | ⟨_, hp'⟩
    · exact honce
    · exact h.once hp'
  · intro k₁ k₂ p₁ p₂ hp₁ hp₂ hne handle hh
    rcases hget hp₁ with ⟨rfl, rfl⟩ | ⟨hk₁, hp₁'⟩
    · rcases hget hp₂ with ⟨rfl, _⟩ | ⟨hk₂, hp₂'⟩
      · exact absurd rfl hne
      · exact hapart k₂ p₂ hp₂' hk₂ handle hh
    · rcases hget hp₂ with ⟨rfl, rfl⟩ | ⟨_, hp₂'⟩
      · -- the new place would hold a path that `p₁` holds
        rw [Place.holdsPath_eq_false_iff]
        intro hmem
        obtain ⟨handle', hh', he⟩ := List.mem_map.mp hmem
        have hnot := hapart k₁ p₁ hp₁' hk₁ handle' hh'
        rw [he, Place.holdsPath_eq_false_iff] at hnot
        exact hnot (List.mem_map_of_mem hh)
      · exact h.apart hp₁' hp₂' hne handle hh
  · intro k' p hp
    rcases hget hp with ⟨_, rfl⟩ | ⟨_, hp'⟩
    · exact hfree
    · exact h.free hp'

/-- A place may change as long as it retains its owner and its handles. -/
theorem retain (h : SoleOwner places) {k : String} {p q : Place} (hp : places.get? k = some p)
    (hr : p.Retains q) : SoleOwner (places.insert k q) := by
  refine h.insert k ?_ ?_ ?_
  · rw [hr.held]
    exact h.once hp
  · intro k' p' hp' hne handle hh
    rw [hr.held] at hh
    exact h.apart hp hp' hne.symm handle hh
  · intro hfree
    rw [hr.acquired] at hfree
    rw [hr.held, hr.allowed hfree]
    exact h.free hp hfree

theorem insert_empty (h : SoleOwner places) (k : String) {q : Place} (hheld : q.held = [])
    (hallowed : q.allowed = SortedMap.empty) : SoleOwner (places.insert k q) := by
  refine h.insert k ?_ ?_ (fun _ => ⟨hheld, hallowed⟩)
  · rw [hheld]
    exact List.nodup_nil
  · intro k' p hp hne handle hh
    rw [hheld] at hh
    cases hh

theorem erase (h : SoleOwner places) (k : String) : SoleOwner (places.erase k) := by
  have hget : ∀ {k' : String} {p : Place}, (places.erase k).get? k' = some p →
      places.get? k' = some p := fun hp => (SortedMap.get?_erase_eq_some_iff.mp hp).2
  exact ⟨fun hp => h.once (hget hp), fun hp hp' => h.apart (hget hp) (hget hp'),
    fun hp => h.free (hget hp)⟩

theorem mapValues (h : SoleOwner places) {f : String → Place → Place}
    (hf : ∀ k p, Place.Retains p (f k p)) : SoleOwner (places.mapValues f) := by
  have hget : ∀ {k : String} {q : Place}, (places.mapValues f).get? k = some q →
      ∃ p, places.get? k = some p ∧ p.Retains q := by
    intro k q hq
    obtain ⟨p, hp, rfl⟩ := SortedMap.get?_mapValues_eq_some_iff.mp hq
    exact ⟨p, hp, hf k p⟩
  refine ⟨?_, ?_, ?_⟩
  · intro k q hq
    obtain ⟨p, hp, hr⟩ := hget hq
    rw [hr.held]
    exact h.once hp
  · intro k k' q q' hq hq' hne handle hh
    obtain ⟨p, hp, hr⟩ := hget hq
    obtain ⟨p', hp', hr'⟩ := hget hq'
    rw [hr.held] at hh
    have happ := h.apart hp hp' hne handle hh
    rw [Place.holdsPath_eq_false_iff] at happ ⊢
    rw [hr'.held]
    exact happ
  · intro k q hq hfree
    obtain ⟨p, hp, hr⟩ := hget hq
    rw [hr.acquired] at hfree
    rw [hr.held, hr.allowed hfree]
    exact h.free hp hfree

/-- All held paths of all places are different. -/
theorem nodup (h : SoleOwner places) :
    (places.values.flatMap (fun p => p.held.map Handle.path)).Nodup := by
  unfold SortedMap.values
  rw [List.flatMap_map, List.nodup_flatMap]
  constructor
  · rintro ⟨k, p⟩ hp
    exact h.once (SortedMap.mem_toList_iff.mp hp)
  · refine places.sorted.imp_of_mem ?_
    rintro ⟨k, p⟩ ⟨k', p'⟩ hp hp' hlt path hpath hpath'
    obtain ⟨handle, hh, rfl⟩ := List.mem_map.mp hpath
    have happ := h.apart (SortedMap.mem_toList_iff.mp hp) (SortedMap.mem_toList_iff.mp hp')
      (KeyOrder.ne_of_lt hlt) handle hh
    rw [Place.holdsPath_eq_false_iff] at happ
    exact happ hpath'

end SoleOwner

namespace Hub

theorem retains_relink (now : Nat) (owners : SortedMap String Token) (p : Place) :
    p.Retains (relink now owners p) := by
  unfold relink
  split <;> exact ⟨rfl, rfl, fun _ => rfl⟩

/-- A place that is stored keeps owner and handles in the pass behind. -/
theorem retains_stored {hub : Hub} (hn : hub.Named) (q : Place) (now : Nat) :
    ∃ p, (((hub.storePlace q).markDirty).schedule now).places.get? q.name = some p ∧
      q.Retains p := by
  have hnamed : (hub.storePlace q).markDirty.Named :=
    Writes.named (writes_markDirty (.single (.store q))) hn
  have hstored : (hub.storePlace q).markDirty.places.get? q.name = some q :=
    (SortedMap.get?_insert ..).trans (if_pos rfl)
  rw [places_schedule hnamed]
  exact ⟨_, SortedMap.get?_mapValues_eq_some_iff.mpr ⟨q, hstored, rfl⟩, retains_relink _ _ q⟩

theorem Edit.retains {hub : Hub} {p p' : Place} (he : Edit hub p p') : p.Retains p' := by
  cases he with
  | allow user hheld =>
    refine ⟨rfl, rfl, fun hfree => ?_⟩
    rw [hheld] at hfree
    cases hfree
  | _ => exact ⟨rfl, rfl, fun _ => rfl⟩

theorem map_replaceHandle (h : Handle) (l : List Handle) :
    (replaceHandle h l).map Handle.path = l.map Handle.path := by
  induction l with
  | nil => rfl
  | cons old rest ih =>
    unfold replaceHandle
    split
    · rename_i he
      simp [he]
    · simp [ih]

theorem not_holdsPath_of_otherHolder {hub : Hub} (hn : hub.Named) {name : String}
    {path : ResourcePath} (hfree : hub.otherHolder name path = none) {k : String} {p : Place}
    (hp : hub.places.get? k = some p) (hne : k ≠ name) : p.holdsPath path = false := by
  have hnone := List.find?_eq_none.mp hfree p (SortedMap.mem_values_iff.mpr ⟨k, hp⟩)
  have hname : p.name ≠ name := by
    rw [hn k p hp]
    exact hne
  simpa [hname] using hnone

/-- Only a free place may be acquired. -/
theorem acquired_of_acquisitionError {hub : Hub} {p : Place} {principal : String}
    (h : Run.acquisitionError hub p principal = none) : p.acquired = none := by
  unfold Run.acquisitionError at h
  split at h
  · cases h
  · assumption

theorem Change.soleOwner {o : Occasion} {hub : Hub} (hn : hub.Named) (h : SoleOwner hub.places)
    {name : String} {p q : Place} (hp : hub.places.get? name = some p)
    (hc : Change o hub name p q) : SoleOwner (hub.places.insert name (q.touch o.now)) := by
  cases hc with
  | edit he =>
    have hr := he.retains
    exact h.retain hp ⟨hr.acquired, hr.held, hr.allowed⟩
  | retag tags _ => exact h.retain hp ⟨rfl, rfl, fun _ => rfl⟩
  | @acquire principal handles hallowed hdistinct hfree _ =>
    -- the place was free, so behind the acquisition it holds the claimed handles and no other
    have hheld : p.held ++ handles = handles := by
      rw [(h.free hp (acquired_of_acquisitionError hallowed)).1]
      rfl
    refine h.insert name ?_ ?_ ?_
    · show ((p.held ++ handles).map Handle.path).Nodup
      rw [hheld]
      exact hdistinct
    · intro k' p' hp' hne handle hh
      have hh' : handle ∈ p.held ++ handles := hh
      rw [hheld] at hh'
      exact not_holdsPath_of_otherHolder hn (hfree handle hh') hp' hne
    · intro hnone
      cases hnone
  | release => exact h.insert_empty name rfl rfl
  | @attach handle hheld hnew hfree _ _ =>
    refine h.insert name ?_ ?_ ?_
    · rw [Place.holdsPath_eq_false_iff] at hnew
      show ((p.held ++ [handle]).map Handle.path).Nodup
      rw [List.map_append, List.nodup_append]
      refine ⟨h.once hp, List.nodup_singleton _, ?_⟩
      intro path hpath path' hpath' he
      rw [List.mem_singleton.mp hpath'] at he
      exact hnew (he ▸ hpath)
    · intro k' p' hp' hne handle' hh
      rcases List.mem_append.mp hh with hold | hlast
      · exact h.apart hp hp' hne.symm handle' hold
      · rw [List.mem_singleton.mp hlast]
        exact not_holdsPath_of_otherHolder hn hfree hp' hne
    · intro hnone
      have hnone' : p.acquired = none := hnone
      rw [hnone'] at hheld
      cases hheld
  | @replace handle old hold _ =>
    have hpaths := map_replaceHandle handle p.held
    refine h.insert name ?_ ?_ ?_
    · show ((replaceHandle handle p.held).map Handle.path).Nodup
      rw [hpaths]
      exact h.once hp
    · intro k' p' hp' hne handle' hh
      have hh' : handle'.path ∈ (replaceHandle handle p.held).map Handle.path :=
        List.mem_map_of_mem hh
      rw [hpaths] at hh'
      obtain ⟨kept, hkept, he⟩ := List.mem_map.mp hh'
      rw [← he]
      exact h.apart hp hp' hne.symm kept hkept
    · intro hnone
      -- a free place holds nothing that could be replaced
      rw [(h.free hp hnone).1] at hold
      cases hold

/-- Every move keeps the invariant. -/
theorem Move.soleOwner {o : Occasion} {hub hub' : Hub} (hn : hub.Named) (h : SoleOwner hub.places)
    (hm : Move o hub hub') : SoleOwner hub'.places := by
  obtain ⟨places, hplacing, hplaces⟩ := hm.placing hn
  have hsole : SoleOwner places := by
    cases hplacing with
    | keep => exact h
    | erase name => exact h.erase name
    | add _ _ => exact h.insert_empty _ rfl rfl
    | addDefault => exact h.insert_empty _ rfl rfl
    | change hp hc => exact hc.soleOwner hn h hp
  rcases hplaces with he | ⟨owners, he⟩
  · rw [he]
    exact hsole
  · rw [he]
    exact hsole.mapValues (fun _ p => retains_relink o.now owners p)

end Hub

namespace Station

theorem soleOwner_start {settings : HubSettings} {directory : Option StateDirectory} {s : Station}
    (h : Station.start settings directory = .ok s) : SoleOwner s.hub.places := by
  obtain ⟨places, hhub, hplaces⟩ := start_ok h
  rw [hhub]
  refine ⟨?_, ?_, ?_⟩
  · intro k p hp
    obtain ⟨_, _, hheld, _⟩ := hplaces k p hp
    rw [hheld]
    exact List.nodup_nil
  · intro k k' p p' hp _ _ handle hh
    obtain ⟨_, _, hheld, _⟩ := hplaces k p hp
    rw [hheld] at hh
    cases hh
  · intro k p hp _
    obtain ⟨_, _, hheld, hallowed, _⟩ := hplaces k p hp
    exact ⟨hheld, hallowed⟩

theorem Course.soleOwner {settings : HubSettings} {directory : Option StateDirectory}
    {start s : Station} {turns : List Turn} (h : Station.start settings directory = .ok start)
    (hc : Course start turns s) :
    SoleOwner s.hub.places ∧ ∀ turn ∈ turns, ∀ a ∈ turn.attempts, SoleOwner a.hub.places :=
  hc.kept (P := fun hub => SoleOwner hub.places) h (soleOwner_start h)
    (fun hq hp => hq.places ▸ hp) (fun hn hp hm => hm.soleOwner hn hp)

/-- Throughout a course, and whenever the outcome of a command becomes known, no path is held
twice, and a free place holds nothing and allows nobody. -/
theorem Course.nodup_held {settings : HubSettings} {directory : Option StateDirectory}
    {start s : Station} {turns : List Turn} (h : Station.start settings directory = .ok start)
    (hc : Course start turns s) (hub : Hub)
    (hreached : hub = s.hub ∨ ∃ turn ∈ turns, ∃ a ∈ turn.attempts, hub = a.hub) :
    (hub.places.values.flatMap (fun p => p.held.map Handle.path)).Nodup ∧
      ∀ p ∈ hub.places.values, p.acquired = none →
        p.held = [] ∧ p.allowed = SortedMap.empty := by
  have hsole : SoleOwner hub.places := by
    rcases hreached with rfl | ⟨turn, hturn, a, ha, rfl⟩
    · exact (hc.soleOwner h).1
    · exact (hc.soleOwner h).2 turn hturn a ha
  refine ⟨hsole.nodup, ?_⟩
  intro p hp hfree
  obtain ⟨k, hk⟩ := SortedMap.mem_values_iff.mp hp
  exact hsole.free hk hfree

/-- In the small laboratory the board holds the relay. -/
theorem nodup_held_lab :
    lab.hub.places.values.flatMap (fun p => p.held.map Handle.path) =
        [⟨"lab", "rack", "PowerPort", "relay"⟩] ∧
      (lab.hub.places.values.flatMap (fun p => p.held.map Handle.path)).Nodup ∧
        ∀ p ∈ lab.hub.places.values, p.acquired = none →
          p.held = [] ∧ p.allowed = SortedMap.empty := by
  have hstart : Station.start ⟨1000, 1000⟩ none = .ok empty := rfl
  refine ⟨by decide +kernel, ?_⟩
  exact Course.nodup_held hstart (course_play empty labScenes) lab.hub (Or.inl rfl)

end Station

end BoardFarm
