import BoardFarm.Proofs.StoredPlaces

/-!
# What the mark of a change covers

The mark of a change is set behind every change of a place but two: when a place is given or loses
a reservation, and when what it holds is extended or replaced. Neither is stored, yet both move the
time of change, which is stored.

* `Hub.Retimes`: changes that reach the stored places by their times only.
* `Hub.Marks`, `Hub.Passage.marks`: operations mark every other change.
* `Station.Storing`, `Station.Journal`: operations, saves and failed saves, with what was stored
  last.
* `Station.Covered`, `Station.Journal.covered`: what an unmarked station has stored.
-/

namespace BoardFarm

namespace Hub

variable {now : Nat} {hub hub₁ hub' : Hub}

/-! ## The mark stays -/

theorem marked_withdraw (h : hub.dirty = true) (id : Nat) (s : ExporterSession)
    (group name : String) : (hub.withdraw id s group name).dirty = true := by
  unfold withdraw
  split
  · exact h
  · rfl

theorem marked_withdrawAll (h : hub.dirty = true) (id : Nat) :
    (hub.withdrawAll id).dirty = true := by
  unfold withdrawAll
  split
  · exact h
  · rfl

theorem marked_disconnect (h : hub.dirty = true) (id : Nat) (finish : Link → Link) :
    (hub.disconnect id finish).dirty = true := by
  unfold disconnect
  split
  · exact h
  · split
    · exact marked_withdrawAll h id
    · exact h

theorem marked_publish (h : hub.dirty = true) (id : Nat) (s : ExporterSession)
    (group name : String) (r : ResourceRecord) : (hub.publish id s group name r).dirty = true := by
  unfold publish publishNew
  split
  · rfl
  · split
    · exact h
    · rfl

theorem marked_hearExporter (h : hub.dirty = true) (id : Nat) (m : ExporterMessage) :
    (hub.hearExporter id m).dirty = true := by
  unfold hearExporter
  split
  · exact h
  · split
    · exact h
    · split
      · exact h
      · unfold register
        dsimp only
        split
        · exact h
        · split <;> exact h
      · unfold report
        split
        · exact h
        · split
          · exact marked_withdraw h ..
          · exact marked_publish h ..
      · exact h
      · exact h
      · exact h

theorem marked_apply (h : hub.dirty = true) (e : Event) : (hub.apply e).dirty = true := by
  cases e with
  | exporterSends id m => exact marked_hearExporter h id m
  | exporterEnds id => exact marked_disconnect h id _
  | exporterLeaves id => exact marked_disconnect h id _
  | _ => exact h

theorem Stir.marked (hs : Stir hub hub') (h : hub.dirty = true) : hub'.dirty = true := by
  cases hs with
  | event e => exact marked_apply h e
  | channel id f => exact h
  | work hl => exact h

theorem dirty_settled (tells : Bool) (a : Attempt) : (a.settled tells).dirty = a.hub.dirty := by
  unfold Attempt.settled
  split
  · rfl
  · split <;> rfl

/-- Nothing that happens around commands takes the mark away. -/
theorem Exchange.marked {tells : Bool} {l : List Attempt} (hx : Exchange tells hub l hub')
    (h : hub.dirty = true) : hub'.dirty = true := by
  induction hx with
  | refl => exact h
  | stir _ hs ih => exact hs.marked ih
  | settle _ ih => rw [dirty_settled, ih]

theorem dirty_schedule (hub : Hub) (now : Nat) : (hub.schedule now).dirty = hub.dirty := by
  unfold Hub.schedule
  refine List.foldlRecOn _ _ (motive := fun hub₁ : Hub => hub₁.dirty = hub.dirty) rfl ?_
  intro hub₁ h₁ p _
  unfold linkPlace
  split
  · exact h₁
  · exact h₁

/-! ## Changes of times -/

/-- Every place is the same, or its reservation, what it holds and the time of its change are
different. -/
def Retimes (now : Nat) (hub hub' : Hub) : Prop :=
  ∀ k, hub'.places.get? k = hub.places.get? k ∨ ∃ p reservation held,
    hub.places.get? k = some p ∧ hub'.places.get? k =
      some ({ p with reservation := reservation, held := held }.touch now)

theorem Retimes.of_places (h : hub'.places = hub.places) : Retimes now hub hub' :=
  fun k => Or.inl (by rw [h])

theorem Retimes.trans (h : Retimes now hub hub₁) (h' : Retimes now hub₁ hub') :
    Retimes now hub hub' := by
  intro k
  rcases h' k with heq | ⟨p₁, reservation, held, hp₁, hp'⟩
  · rcases h k with heq₁ | ⟨p, reservation, held, hp, hp₁⟩
    · exact Or.inl (heq.trans heq₁)
    · exact Or.inr ⟨p, reservation, held, hp, heq.trans hp₁⟩
  · rcases h k with heq₁ | ⟨p, _, _, hp, hq⟩
    · exact Or.inr ⟨p₁, reservation, held, heq₁ ▸ hp₁, hp'⟩
    · rw [hp₁] at hq
      cases hq
      exact Or.inr ⟨p, reservation, held, hp, hp'⟩

theorem retimes_schedule (hn : hub.Named) (now : Nat) : Retimes now hub (hub.schedule now) := by
  intro k
  rw [places_schedule hn, SortedMap.get?_mapValues]
  cases hub.places.get? k with
  | none => exact Or.inl rfl
  | some p =>
    rw [Option.map_some]
    unfold relink
    split
    · exact Or.inl rfl
    · exact Or.inr ⟨p, _, p.held, rfl, rfl⟩

theorem retimes_storePlace (hn : hub.Named) {name : String} {p : Place}
    (hp : hub.places.get? name = some p) (now : Nat) (held : List Handle) :
    Retimes now hub (hub.storePlace ({ p with held := held }.touch now)) := by
  intro k
  have hname : p.name = name := hn name p hp
  have hget := SortedMap.get?_insert hub.places p.name k ({ p with held := held }.touch now)
  by_cases hk : p.name = k
  · rw [if_pos hk] at hget
    exact Or.inr ⟨p, p.reservation, held, hk ▸ hname ▸ hp, hget⟩
  · rw [if_neg hk] at hget
    exact Or.inl hget

/-- What is stored of the places keeps everything but the time of a change. -/
theorem Retimes.placeDocuments (h : Retimes now hub hub') (k : String) :
    hub'.placeDocuments.get? k = (hub.placeDocuments.get? k).map (fun d => { d with
      changed := if hub.places.get? k = hub'.places.get? k then d.changed
        else Timestamp.ofMillis now }) := by
  unfold Hub.placeDocuments
  rw [SortedMap.get?_mapValues, SortedMap.get?_mapValues, Option.map_map]
  rcases h k with heq | ⟨p, reservation, held, hp, hp'⟩
  · rw [heq]
    simp [Function.comp_def]
  · rw [hp, hp']
    by_cases hsame : some p = some ({ p with reservation := reservation, held := held }.touch now)
    · rw [← hsame]
      simp
    · rw [Option.map_some, Option.map_some, Function.comp, if_neg hsame]
      rfl

/-! ## Operations -/

/-- A change that leaves the hub unmarked starts from an unmarked hub and at most moves times. -/
def Marks (now : Nat) (hub hub' : Hub) : Prop :=
  hub'.dirty = false → hub.dirty = false ∧ Retimes now hub hub'

theorem Marks.trans (h : Marks now hub hub₁) (h' : Marks now hub₁ hub') : Marks now hub hub' := by
  intro hclean
  obtain ⟨hclean₁, hr'⟩ := h' hclean
  obtain ⟨hclean₀, hr⟩ := h hclean₁
  exact ⟨hclean₀, hr.trans hr'⟩

theorem Marks.of_dirty (h : hub'.dirty = true) : Marks now hub hub' := by
  intro hclean
  rw [h] at hclean
  cases hclean

theorem Marks.of_retimes (hdirty : hub'.dirty = hub.dirty) (h : Retimes now hub hub') :
    Marks now hub hub' :=
  fun hclean => ⟨hdirty ▸ hclean, h⟩

theorem Exchange.marks {tells : Bool} {l : List Attempt} (hx : Exchange tells hub l hub')
    (now : Nat) : Marks now hub hub' := by
  cases hdirty : hub.dirty with
  | true => exact .of_dirty (hx.marked hdirty)
  | false => exact fun _ => ⟨hdirty, .of_places hx.quiet.places⟩

/-- A pass over other reservations. -/
theorem marks_schedule (hn : hub.Named) (now : Nat) (rs : SortedMap Token Reservation) :
    Marks now hub ({ hub with reservations := rs }.schedule now) := by
  have hnamed : Named { hub with reservations := rs } := hn
  have hretimes := retimes_schedule hnamed now
  exact .of_retimes (dirty_schedule _ now) hretimes

theorem Move.marks {o : Occasion} (hn : hub.Named) (hm : Move o hub hub') :
    Marks o.now hub hub' := by
  -- behind a pass over the reservations the mark is what it was before
  have hmarked : ∀ hub₁ : Hub, Marks o.now hub (hub₁.markDirty.schedule o.now) :=
    fun hub₁ => .of_dirty (dirty_schedule hub₁.markDirty o.now)
  cases hm with
  | edit hp he => exact .of_dirty rfl
  | retag hp _ hfirst => exact hmarked _
  | add hfresh hunused => exact hmarked _
  | addDefault hop hwork hplaces hnumeric hfresh hm => exact hmarked _
  | delete name => exact hmarked _
  | acquire hp hallowed hdistinct hfree hpublished =>
    unfold completeAcquisition
    rw [hp]
    exact hmarked _
  | release hp =>
    unfold completeRelease
    rw [hp]
    exact hmarked _
  | @attach name p h hp hheld hnew hfree link hwork =>
    unfold Hub.attach
    rw [hp]
    exact .of_retimes rfl (retimes_storePlace hn hp o.now (p.held ++ [h]))
  | replace hr hpublished =>
    obtain ⟨p, old, hp, hold, rfl⟩ := replaceHeld_eq_some hr
    exact .of_retimes rfl (retimes_storePlace hn hp o.now _)
  | republish h =>
    obtain ⟨clients, he⟩ := publishHolders_eq hub h
    rw [he]
    exact .of_retimes rfl (.of_places rfl)
  | reserve hop owner => exact marks_schedule hn o.now _
  | cancel hop hr => exact marks_schedule hn o.now _
  | poll hr hlive => exact .of_retimes rfl (.of_places rfl)
  | schedule => exact marks_schedule hn o.now hub.reservations
  | subscribe id enable => exact .of_retimes rfl (.of_places rfl)
  | retries b => exact .of_retimes rfl (.of_places rfl)

theorem Passage.marks {o : Occasion} {tells : Bool} {l : List Attempt} (hn : hub.Named)
    (hp : Passage o tells hub l hub') : Marks o.now hub hub' := by
  induction hp with
  | refl => exact .of_retimes rfl (.of_places rfl)
  | exchange _ hx ih => exact ih.trans (hx.marks o.now)
  | move hpast hm _ ih => exact ih.trans (hm.marks (hpast.named hn))

end Hub

/-! ## Journals -/

/-- A deed of a station: an operation at a moment of the clock, by the hubs around it. -/
structure Deed where
  now : Nat
  before : Hub
  after : Hub

/-- The time of change of a place behind a deed: the moment of the deed, if it has changed
anything of the place. -/
def Deed.retime (e : Deed) (name : String) (changed : Timestamp) : Timestamp :=
  if e.before.places.get? name = e.after.places.get? name then changed
  else Timestamp.ofMillis e.now

/-- The time of change of a place behind some deeds. -/
def lastTouch (name : String) (deeds : List Deed) (changed : Timestamp) : Timestamp :=
  deeds.foldl (fun t e => e.retime name t) changed

@[simp] theorem lastTouch_nil (name : String) (changed : Timestamp) :
    lastTouch name [] changed = changed := rfl

theorem lastTouch_append (name : String) (deeds : List Deed) (e : Deed) (changed : Timestamp) :
    lastTouch name (deeds ++ [e]) changed = e.retime name (lastTouch name deeds changed) := by
  simp [lastTouch]

namespace Station

variable {settings : HubSettings} {d : StateDirectory} {start s t : Station}
  {written : SortedMap String PlaceDocument} {since : List Deed}

/-- A save if anything has changed, or in any case. -/
def saving (s : Station) (all : Bool) : Option Bool × Station :=
  if all then s.save else s.saveIfDirty

/-- Attempts to save the state, and whether the places are stored by them. The file system may
break a save off, before the places are stored or behind it; then the change is marked again. -/
inductive Storing (s : Station) : Bool → Station → Prop
  | saved (all : Bool) (h : (s.saving all).1 = some true) : Storing s true (s.saving all).2
  | unsaved (all : Bool) (h : (s.saving all).1 ≠ some true)
      (hsame : (s.saving all).2.directory = s.directory) : Storing s false (s.saving all).2
  | lost : Storing s false { s with hub := s.hub.markDirty }
  | torn {d : StateDirectory} (hd : s.directory = some d) (hfree : d ≠ .blocked) {n : Nat}
      (hn : 0 < n) : Storing s true ⟨s.hub.markDirty, some (d.store (s.hub.files.take n))⟩

/-- Operations and attempts to save the state, with the places that were stored last and the deeds
since then. -/
inductive Journal (start : Station) :
    SortedMap String PlaceDocument → List Deed → Station → Prop
  | start : Journal start SortedMap.empty [] start
  | operate {ω : Type} {written : SortedMap String PlaceDocument} {since : List Deed}
      {s : Station} (h : Journal start written since s) (react : Surroundings ω) (around : ω)
      (now : Nat) (op : Operation) :
      Journal start written (since ++ [⟨now, s.hub, (s.operate react around now op).hub⟩])
        { s with hub := (s.operate react around now op).hub }
  | stored {written : SortedMap String PlaceDocument} {since : List Deed} {s t : Station}
      (h : Journal start written since s) (hs : Storing s true t) :
      Journal start s.hub.placeDocuments [] t
  | unstored {written : SortedMap String PlaceDocument} {since : List Deed} {s t : Station}
      (h : Journal start written since s) (hs : Storing s false t) : Journal start written since t

theorem saving_cases (s : Station) (all : Bool) :
    ((s.saving all).1 ≠ some true ∧
      ((s.saving all).2 = s ∨ (s.saving all).2 = { s with hub := s.hub.markDirty })) ∨
      (∃ d, s.directory = some d ∧ d ≠ .blocked ∧ s.saving all =
        (none, ⟨s.hub.markDirty, some (d.store (s.hub.files.take 1))⟩)) ∨
      ∃ d, s.directory = some d ∧ s.saving all =
        (some true, ⟨{ s.hub with dirty := false }, some (d.store s.hub.files)⟩) := by
  cases all with
  | false =>
    rcases s.saveIfDirty_cases with ⟨hne, hsame⟩ | ⟨d, hd, hfree, hdirty, htorn⟩ | hsaved
    · exact Or.inl ⟨hne, Or.inl hsame⟩
    · have hmarked : s.hub.markDirty = s.hub := by
        unfold Hub.markDirty
        rw [← hdirty]
      rw [hmarked]
      exact Or.inr (Or.inl ⟨d, hd, hfree, htorn⟩)
    · exact Or.inr (Or.inr hsaved)
  | true =>
    rcases Station.saveIfDirty_cases { s with hub := s.hub.markDirty } with
      ⟨hne, hsame⟩ | ⟨d, hd, hfree, _, htorn⟩ | hsaved
    · exact Or.inl ⟨hne, Or.inr hsame⟩
    · exact Or.inr (Or.inl ⟨d, hd, hfree, htorn⟩)
    · exact Or.inr (Or.inr hsaved)

/-- Whatever a save comes to is one of these attempts. -/
theorem exists_storing (s : Station) (all : Bool) :
    ∃ stored, Storing s stored (s.saving all).2 := by
  rcases s.saving_cases all with ⟨hne, hsame | hsame⟩ | ⟨d, hd, hfree, htorn⟩ | ⟨d, _, hsaved⟩
  · exact ⟨false, .unsaved all hne (by rw [hsame])⟩
  · exact ⟨false, .unsaved all hne (by rw [hsame])⟩
  · rw [htorn]
    exact ⟨true, .torn hd hfree Nat.one_pos⟩
  · exact ⟨true, .saved all (by rw [hsaved])⟩

/-- Behind an attempt by which the places are stored they are found in the directory. -/
theorem Storing.stored (h : Storing s true t) :
    (∃ dirty, t.hub = { s.hub with dirty := dirty }) ∧ ∃ d, t.directory = some d ∧
      d.entry placesFile = .text (PlaceDocument.write s.hub.placeDocuments) := by
  cases h with
  | saved all hsaved =>
    rcases s.saving_cases all with ⟨hne, _⟩ | ⟨d, _, _, heq⟩ | ⟨d, _, heq⟩
    · exact absurd hsaved hne
    · rw [heq] at hsaved
      cases hsaved
    · rw [heq]
      exact ⟨⟨false, rfl⟩, _, rfl, d.entry_store_places s.hub⟩
  | @torn d _ _ n hn => exact ⟨⟨true, rfl⟩, _, rfl, d.entry_store_take s.hub hn⟩

/-- By any other attempt nothing is changed but the mark. -/
theorem Storing.unstored (h : Storing s false t) :
    t = s ∨ t = { s with hub := s.hub.markDirty } := by
  cases h with
  | unsaved all hunsaved hdirectory =>
    rcases s.saving_cases all with ⟨_, hsame⟩ | ⟨d, _, _, heq⟩ | ⟨d, _, heq⟩
    · exact hsame
    · right
      rw [heq] at hdirectory ⊢
      rw [← hdirectory]
    · rw [heq] at hunsaved
      exact absurd rfl hunsaved
  | lost => exact Or.inr rfl

theorem start_absent (hd : d.entry placesFile = .absent)
    (h : Station.start settings (some d) = .ok start) :
    start = ⟨Hub.new settings SortedMap.empty, some d⟩ := by
  have hl : d.loadPlaces = .ok SortedMap.empty := by
    unfold StateDirectory.loadPlaces
    rw [hd]
  unfold Station.start at h
  dsimp only at h
  rw [hl] at h
  cases h
  rfl

theorem Journal.filed (h : Station.start settings (some d) = .ok start)
    (hj : Journal start written since s) : s.hub.Named ∧ s.hub.Filed := by
  have hmark : ∀ {hub : Hub} {dirty : Bool}, hub.Named ∧ hub.Filed →
      Hub.Named { hub with dirty := dirty } ∧ Hub.Filed { hub with dirty := dirty } :=
    fun ⟨hn, hf⟩ => ⟨hn, hf.shrink (.of_eq rfl rfl)⟩
  induction hj with
  | start => exact ⟨named_start h, filed_start h⟩
  | operate _ react around now op ih =>
    have hp := Run.perform_passes react now op around ih.1 ih.2.nodup_published
    exact ⟨hp.named ih.1, hp.filed ih.2⟩
  | stored _ hs ih =>
    obtain ⟨⟨dirty, hhub⟩, _⟩ := hs.stored
    rw [hhub]
    exact hmark ih
  | unstored _ hs ih =>
    rcases hs.unstored with rfl | rfl
    · exact ih
    · exact hmark ih

theorem marks_operate {ω : Type} (hs : s.hub.Named ∧ s.hub.Filed) (react : Surroundings ω)
    (around : ω) (now : Nat) (op : Operation) :
    Hub.Marks now s.hub (s.operate react around now op).hub :=
  (Run.perform_passes react now op around hs.1 hs.2.nodup_published).marks hs.1

/-- The places that were stored last are found in the directory. -/
theorem Journal.entry_places (hd : d.entry placesFile = .absent)
    (h : Station.start settings (some d) = .ok start) (hj : Journal start written since s) :
    ∃ d', s.directory = some d' ∧ (d'.entry placesFile = .text (PlaceDocument.write written) ∨
      d'.entry placesFile = .absent ∧ written = SortedMap.empty) := by
  induction hj with
  | start =>
    rw [start_absent hd h]
    exact ⟨d, rfl, Or.inr ⟨hd, rfl⟩⟩
  | operate _ _ _ _ _ ih => exact ih
  | stored _ hs _ =>
    obtain ⟨_, d', hd', hentry⟩ := hs.stored
    exact ⟨d', hd', Or.inl hentry⟩
  | unstored _ hs ih =>
    rcases hs.unstored with rfl | rfl
    · exact ih
    · exact ih

/-- While nothing is marked, the deeds since the places were stored have at most given places other
reservations or changed what they hold; of what is stored they have moved times of change only. -/
theorem Journal.unmarked (hd : d.entry placesFile = .absent)
    (h : Station.start settings (some d) = .ok start) (hj : Journal start written since s)
    (hclean : s.hub.dirty = false) :
    (∀ e ∈ since, Hub.Retimes e.now e.before e.after) ∧
      ∀ name, s.hub.placeDocuments.get? name = (written.get? name).map (fun document =>
        { document with changed := lastTouch name since document.changed }) := by
  induction hj with
  | start =>
    rw [start_absent hd h]
    exact ⟨List.forall_mem_nil _, fun name => rfl⟩
  | @operate ω written since s hpast react around now op ih =>
    obtain ⟨hclean₀, hr⟩ := marks_operate (hpast.filed h) react around now op hclean
    obtain ⟨hdeeds, hget⟩ := ih hclean₀
    constructor
    · intro e he
      rcases List.mem_append.mp he with hold | hnew
      · exact hdeeds e hold
      · rw [List.mem_singleton.mp hnew]
        exact hr
    · intro name
      refine (hr.placeDocuments name).trans ?_
      rw [hget name, Option.map_map]
      simp only [lastTouch_append]
      rfl
  | stored _ hs _ =>
    obtain ⟨⟨dirty, hhub⟩, _⟩ := hs.stored
    refine ⟨List.forall_mem_nil _, fun name => ?_⟩
    rw [hhub]
    simp only [lastTouch_nil]
    exact (congrFun Option.map_id _).symm
  | unstored _ hs ih =>
    rcases hs.unstored with rfl | rfl
    · exact ih hclean
    · cases hclean

/-- What an unmarked station has stored: `written`, unless deeds since then have moved times. -/
structure Covered (written : SortedMap String PlaceDocument) (since : List Deed) (s : Station) :
    Prop where
  /-- Nothing is saved as long as nothing is marked. -/
  idle : s.saveIfDirty = (some false, s)
  /-- The file holds the places that were stored last, or there is none. -/
  file : ∃ d, s.directory = some d ∧ (d.entry placesFile = .text (PlaceDocument.write written) ∨
    d.entry placesFile = .absent ∧ written = SortedMap.empty)
  /-- There are no other places than the stored ones, and nothing else is to be stored of them but
  the time of the last deed that has changed them. -/
  documents : ∀ name, s.hub.placeDocuments.get? name = (written.get? name).map (fun document =>
    { document with changed := lastTouch name since document.changed })
  /-- These deeds have only given places other reservations or changed what they hold. -/
  deeds : ∀ e ∈ since, Hub.Retimes e.now e.before e.after
  /-- The stored places are up to date just if no deed has given one another time of change. -/
  upToDate : s.hub.placeDocuments = written ↔ ∀ name document,
    written.get? name = some document →
      lastTouch name since document.changed = document.changed

/-- Whatever a station has been asked for, and whether its saves succeeded or not: while nothing is
marked, only times of change may be missing in its directory. -/
theorem Journal.covered (hd : d.entry placesFile = .absent)
    (h : Station.start settings (some d) = .ok start) (hj : Journal start written since s)
    (hclean : s.hub.dirty = false) : Covered written since s := by
  obtain ⟨hdeeds, hget⟩ := hj.unmarked hd h hclean
  obtain ⟨d', hd', hentry⟩ := hj.entry_places hd h
  refine ⟨?_, ⟨d', hd', hentry⟩, hget, hdeeds, ?_⟩
  · unfold saveIfDirty
    rw [hd', hclean]
    rfl
  · constructor
    · intro heq name document hdoc
      have hsame := hget name
      rw [heq, hdoc, Option.map_some, Option.some_inj] at hsame
      exact (congrArg PlaceDocument.changed hsame).symm
    · intro htimes
      refine SortedMap.ext_get? (fun name => ?_)
      rw [hget name]
      cases hdoc : written.get? name with
      | none => rfl
      | some document => rw [Option.map_some, htimes name document hdoc]

/-! ## A stale file -/

/-- The deeds of some scenes. -/
def deeds (s : Station) : List Scene → List Deed
  | [] => []
  | e :: rest =>
    let r := s.operate scripted e.waits e.now e.operation
    ⟨e.now, s.hub, r.hub⟩ :: deeds { s with hub := r.hub } rest

theorem Journal.play (hj : Journal start written since s) (scenes : List Scene) :
    Journal start written (since ++ s.deeds scenes) (s.play scenes).2 := by
  induction scenes generalizing s since with
  | nil => simpa [Station.deeds, Station.play] using hj
  | cons e rest ih =>
    have hnext := ih (hj.operate scripted e.waits e.now e.operation)
    rw [List.append_assoc] at hnext
    exact hnext

/-- A user adds a place. -/
def addedScenes : List Scene :=
  [⟨0, .event (.clientOpens (some "desk")), []⟩,
   ⟨1, .message 0 (.startup "alice" "1"), []⟩,
   ⟨2, .request (Identifier.ofNat .reservation 1) (some "desk") (.addPlace "board"), []⟩]

/-- The user makes a reservation, which is allocated to the place at once. -/
def reservedScenes : List Scene :=
  [⟨4, .request (Identifier.ofNat .reservation 2) (some "desk")
      (.reserve (SortedMap.ofList [("main", SortedMap.ofList [("name", "board")])]) ⟨0⟩), []⟩]

/-- A station whose place has been stored. -/
def tidied : Station := (archive.play addedScenes).2.saveIfDirty.2

/-- The same station behind the reservation. -/
def booked : Station := (tidied.play reservedScenes).2

theorem journal_booked : Journal archive (archive.play addedScenes).2.hub.placeDocuments
    (tidied.deeds reservedScenes) booked := by
  have hstart : Journal archive SortedMap.empty [] archive := .start
  have hsaved : ((archive.play addedScenes).2.saving false).1 = some true := by decide +kernel
  exact ((hstart.play addedScenes).stored (.saved false hsaved)).play reservedScenes

theorem covered_booked : Covered (archive.play addedScenes).2.hub.placeDocuments
    (tidied.deeds reservedScenes) booked := by
  have hstart : Station.start ⟨1000, 1000⟩ (some (.present SortedMap.empty)) = .ok archive := rfl
  exact Journal.covered rfl hstart journal_booked (by decide +kernel)

/-- Nothing is marked and nothing is saved, yet the stored places are out of date. -/
theorem stale_booked :
    Station.start ⟨1000, 1000⟩ (some (.present SortedMap.empty)) = .ok archive ∧
      ∃ written since, Journal archive written since booked ∧ booked.hub.dirty = false ∧
        booked.saveIfDirty = (some false, booked) ∧ booked.hub.placeDocuments ≠ written ∧
        ∃ d, booked.directory = some d ∧
          d.entry placesFile ≠ .text (PlaceDocument.write booked.hub.placeDocuments) := by
  refine ⟨rfl, _, _, journal_booked, ?_, ?_, ?_, _, rfl, ?_⟩
  · decide +kernel
  · decide +kernel
  · decide +kernel
  · decide +kernel

end Station

end BoardFarm
