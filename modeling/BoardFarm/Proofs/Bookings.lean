import BoardFarm.Proofs.Convergence
import BoardFarm.Proofs.Dispatch

/-!
# Bookings

An operation whose commands do not expire carries all of them out. What it has booked by them it
then enters in a place. All other requests leave alone what places hold; a place that they add or
delete holds nothing.

* `Ledger.assign`: some resources get a new holder.
* `acquireEach_timely`, `releaseEach_timely`: the commands of an acquisition, or of a release.
* `Hub.held?`: what places hold.
* `Hub.Spares`: changes that concern neither exporters nor holdings.
-/

namespace BoardFarm

/-- Some resources get a new holder. -/
def Ledger.assign (ledger : Ledger) (paths : List ResourcePath) (place : Option String) : Ledger :=
  fun path => if path ∈ paths then place else ledger path

theorem Ledger.assign_cons (ledger : Ledger) (path : ResourcePath) (paths : List ResourcePath)
    (place : Option String) : ledger.assign (path :: paths) place =
      Ledger.assign (Function.update ledger path place) paths place := by
  funext q
  unfold assign
  by_cases hq : q ∈ paths
  · rw [if_pos hq, if_pos (List.mem_cons_of_mem _ hq)]
  · rw [if_neg hq]
    by_cases he : q = path
    · rw [he, if_pos (List.mem_cons_self ..), Function.update_self]
    · rw [if_neg (by simp [he, hq]), Function.update_of_ne he]

/-! ## The commands of operations -/

namespace Run

variable {σ : Type} {choose : Strategy σ} {r r' : Run (Fleet × σ)} {ledger : Ledger} {name : String}
  {handles acquired : List Handle} {result : Except RequestError (List Handle)}

/-- No command has expired. -/
def Timely {ω : Type} (r : Run ω) : Prop := ∀ a ∈ r.attempts, a.outcome ≠ .failed .expired

instance {ω : Type} (r : Run ω) : Decidable r.Timely :=
  inferInstanceAs (Decidable (∀ a ∈ r.attempts, a.outcome ≠ .failed .expired))

theorem Exchanges.timely {ω : Type} {tells : Bool} {r r' : Run ω} (h : Exchanges tells r r')
    (htimely : r'.Timely) : r.Timely := by
  obtain ⟨l, hl, _⟩ := h
  intro a ha
  refine htimely a ?_
  rw [hl]
  exact List.mem_append_left _ ha

/-- Free resources are acquired one after another. -/
theorem acquireEach_timely (h : Settled ledger r.site) (hname : name ≠ "")
    (hpublished : ∀ x ∈ handles, x ∈ r.hub.published)
    (hfree : ∀ x ∈ handles, ledger x.path = none) (hdistinct : (handles.map Handle.path).Nodup)
    (hr : acquireEach (Fleet.accompany choose) name handles acquired r = (result, r'))
    (htimely : r'.Timely) :
    result = .ok (acquired ++ handles) ∧
      Settled (ledger.assign (handles.map Handle.path) (some name)) r'.site ∧
      r.hub.Grows r'.hub := by
  induction handles generalizing ledger acquired r with
  | nil =>
    cases hr
    exact ⟨by rw [List.append_nil], h, .refl _⟩
  | cons x rest ih =>
    have hx := hfree x (List.mem_cons_self ..)
    have hmay : Exporter.mayChange (ledger x.path) (some name) = true := by rw [hx]; rfl
    have hnamed : some name ≠ some "" := fun he => hname (Option.some.inj he)
    unfold acquireEach at hr
    obtain ⟨outcome, r₁, hcommand⟩ : ∃ outcome r₁,
        r.command (Fleet.accompany choose) x (some name) = (outcome, r₁) := ⟨_, _, rfl⟩
    rw [hcommand] at hr
    dsimp only at hr
    have hnext := h.command (hpublished x (List.mem_cons_self ..)) hnamed hmay hcommand
    cases outcome with
    | failed cause =>
      dsimp only at hr
      obtain ⟨_, rfl⟩ := Prod.mk.inj hr
      have hrollback : Exchanges true r₁
          (acquired.reverse.foldl (release (Fleet.accompany choose)) r₁) :=
        exchanges_foldl release_exchanges _ _
      obtain ⟨hdone, _⟩ := hnext (hrollback.timely htimely)
      cases hdone
    | done =>
      dsimp only at hr
      have hlater := (acquireEach_spec (Fleet.accompany choose) name rest (acquired ++ [x]) r₁).1
      rw [hr] at hlater
      obtain ⟨_, hsettled, hgrows⟩ := hnext (hlater.timely htimely)
      obtain ⟨hnew, hrest⟩ := List.nodup_cons.mp hdistinct
      have hfree' : ∀ y ∈ rest, Function.update ledger x.path (some name) y.path = none := by
        intro y hy
        rw [Function.update_of_ne]
        · exact hfree y (List.mem_cons_of_mem _ hy)
        · intro he
          exact hnew (he ▸ List.mem_map_of_mem hy)
      obtain ⟨hresult, hsettled', hgrows'⟩ := ih hsettled
        (fun y hy => hgrows.published y (hpublished y (List.mem_cons_of_mem _ hy))) hfree' hrest hr
      refine ⟨?_, ?_, hgrows.trans hgrows'⟩
      · rw [hresult, List.append_assoc]
        rfl
      · rw [List.map_cons, Ledger.assign_cons]
        exact hsettled'

/-- Resources that are held by nobody are acquired, or nothing is tried. -/
theorem acquireAll_timely (h : Settled ledger r.site) (hname : name ≠ "")
    (hpublished : ∀ x ∈ handles, x ∈ r.hub.published) (hdistinct : (handles.map Handle.path).Nodup)
    (hr : acquireAll (Fleet.accompany choose) name handles r = (result, r'))
    (htimely : r'.Timely) :
    (∃ e, result = .error e) ∧ r' = r ∨
      result = .ok handles ∧ (∀ x ∈ handles, ledger x.path = none) ∧
        Settled (ledger.assign (handles.map Handle.path) (some name)) r'.site ∧
        r.hub.Grows r'.hub := by
  unfold acquireAll at hr
  split at hr
  · obtain ⟨rfl, rfl⟩ := Prod.mk.inj hr
    exact Or.inl ⟨⟨_, rfl⟩, rfl⟩
  · rename_i hnone
    have hfree : ∀ x ∈ handles, ledger x.path = none := by
      intro x hx
      have hobstacle := List.findSome?_eq_none_iff.mp hnone x hx
      have hheld := h.holder (hpublished x hx)
      unfold Hub.obstacle at hobstacle
      split at hobstacle
      · cases hobstacle
      · rw [← hheld]
        exact Option.map_eq_none_iff.mp hobstacle
    obtain ⟨hresult, hsettled, hgrows⟩ :=
      acquireEach_timely h hname hpublished hfree hdistinct hr htimely
    exact Or.inr ⟨hresult, hfree, hsettled, hgrows⟩

/-- Published resources are released one after another. -/
theorem releaseEach_timely (h : Settled ledger r.site)
    (hpublished : ∀ x ∈ handles, x ∈ r.hub.published)
    (hr : releaseEach (Fleet.accompany choose) handles r = r') (htimely : r'.Timely) :
    Settled (ledger.assign (handles.map Handle.path) none) r'.site ∧ r.hub.Grows r'.hub := by
  induction handles generalizing ledger r with
  | nil =>
    subst hr
    exact ⟨h, .refl _⟩
  | cons x rest ih =>
    have hx := hpublished x (List.mem_cons_self ..)
    obtain ⟨outcome, r₁, hcommand⟩ : ∃ outcome r₁,
        r.command (Fleet.accompany choose) x none = (outcome, r₁) := ⟨_, _, rfl⟩
    obtain ⟨r₂, hrelease⟩ : ∃ r₂, release (Fleet.accompany choose) r x = r₂ := ⟨_, rfl⟩
    have hkept : r.hub.isOrphaned x = false := h.isOrphaned hx
    have hrest : releaseEach (Fleet.accompany choose) rest r₂ = r' := by
      rw [← hr, ← hrelease]
      show _ = rest.foldl _ (if r.hub.isOrphaned x then r else _)
      rw [if_neg (by rw [hkept]; exact Bool.false_ne_true)]
      rfl
    have htimely₂ : r₂.Timely := by
      have hlater := releaseEach_exchanges (Fleet.accompany choose) rest r₂
      rw [hrest] at hlater
      exact hlater.timely htimely
    have hmay : Exporter.mayChange (ledger x.path) none = true := by
      cases ledger x.path <;> rfl
    have hnext := h.command hx (by simp) hmay hcommand
    unfold release at hrelease
    rw [hcommand] at hrelease
    cases outcome with
    | failed cause =>
      subst hrelease
      obtain ⟨hdone, _⟩ := hnext htimely₂
      cases hdone
    | done =>
      subst hrelease
      obtain ⟨_, hsettled, hgrows⟩ := hnext htimely₂
      obtain ⟨hsettled', hgrows'⟩ := ih hsettled
        (fun y hy => hgrows.published y (hpublished y (List.mem_cons_of_mem _ hy))) hrest
      rw [List.map_cons, Ledger.assign_cons]
      exact ⟨hsettled', hgrows.trans hgrows'⟩

end Run

/-! ## What places hold -/

namespace Hub

variable {hub hub' : Hub} {name : String} {p : Place}

/-- The handles that a place holds. -/
def held? (hub : Hub) (name : String) : Option (List Handle) :=
  (hub.places.get? name).map Place.held

theorem keeps_iff_held? {path : ResourcePath} :
    hub.Keeps name path ↔ ∃ l, hub.held? name = some l ∧ path ∈ l.map Handle.path := by
  unfold Keeps held?
  constructor
  · rintro ⟨p, hp, hmem⟩
    exact ⟨p.held, by rw [hp]; rfl, hmem⟩
  · rintro ⟨l, hl, hmem⟩
    obtain ⟨p, hp, rfl⟩ := Option.map_eq_some_iff.mp hl
    exact ⟨p, hp, hmem⟩

theorem held?_of_places (h : hub'.places = hub.places) (name : String) :
    hub'.held? name = hub.held? name := by
  unfold held?
  rw [h]

theorem held?_storePlace (hub : Hub) (p : Place) (name : String) :
    (hub.storePlace p).held? name = if p.name = name then some p.held else hub.held? name := by
  have hget : (hub.storePlace p).places.get? name =
      if p.name = name then some p else hub.places.get? name := SortedMap.get?_insert ..
  unfold held?
  rw [hget]
  split <;> rfl

theorem held?_schedule (hn : hub.Named) (now : Nat) (name : String) :
    (hub.schedule now).held? name = hub.held? name := by
  unfold held?
  rw [places_schedule hn, SortedMap.get?_mapValues]
  cases hub.places.get? name with
  | none => rfl
  | some p => exact congrArg some (retains_relink now _ p).held

theorem named_stored (hn : hub.Named) (p : Place) : (hub.storePlace p).markDirty.Named :=
  Writes.named (writes_markDirty (.single (.store p))) hn

/-- A place is stored, and a pass made over the reservations. -/
theorem held?_stored (hn : hub.Named) (p : Place) (now : Nat) (name : String) :
    ((hub.storePlace p).markDirty.schedule now).held? name =
      if p.name = name then some p.held else hub.held? name :=
  (held?_schedule (named_stored hn p) now name).trans (held?_storePlace hub p name)

/-- A place is stored in place of one that holds the same. -/
theorem held?_replaced (hn : hub.Named) {q : Place} (hp : hub.places.get? name = some p)
    (hname : q.name = p.name) (hheld : q.held = p.held) (k : String) :
    (hub.storePlace q).held? k = hub.held? k := by
  rw [held?_storePlace]
  split
  · rename_i hk
    have hk' : k = name := by
      rw [← hn name p hp, ← hname]
      exact hk.symm
    unfold held?
    rw [hk', hp]
    exact congrArg some hheld
  · rfl

theorem held?_of_get? (hp : hub.places.get? name = some p) : hub.held? name = some p.held := by
  unfold held?
  rw [hp]
  rfl

/-! ## Acquisitions, releases and attachments -/

theorem completeAcquisition_holdings (hn : hub.Named) (hp : hub.places.get? name = some p)
    (now : Nat) (user : String) (handles : List Handle) :
    Writes hub (hub.completeAcquisition now name user handles) ∧
      ∀ k, (hub.completeAcquisition now name user handles).held? k =
        if name = k then some (p.held ++ handles) else hub.held? k := by
  unfold completeAcquisition
  rw [hp]
  refine ⟨writes_schedule (writes_markDirty (.single (.store _))) now, ?_⟩
  intro k
  refine (held?_stored hn _ now k).trans ?_
  show (if p.name = k then _ else _) = _
  rw [hn name p hp]
  rfl

theorem completeRelease_holdings (hn : hub.Named) (hp : hub.places.get? name = some p) (now : Nat) :
    Writes hub (hub.completeRelease now name) ∧
      ∀ k, (hub.completeRelease now name).held? k = if name = k then some [] else hub.held? k := by
  unfold completeRelease
  rw [hp]
  refine ⟨writes_schedule (writes_markDirty (.single (.store _))) now, ?_⟩
  intro k
  refine (held?_stored hn _ now k).trans ?_
  show (if p.name = k then _ else _) = _
  rw [hn name p hp]
  rfl

theorem attach_holdings (hn : hub.Named) (hp : hub.places.get? name = some p) (now : Nat)
    (x : Handle) : Writes hub (hub.attach now name x) ∧
      ∀ k, (hub.attach now name x).held? k =
        if name = k then some (p.held ++ [x]) else hub.held? k := by
  unfold Hub.attach
  rw [hp]
  refine ⟨.single (.store _), ?_⟩
  intro k
  refine (held?_storePlace hub _ k).trans ?_
  show (if p.name = k then _ else _) = _
  rw [hn name p hp]
  rfl

/-! ## Changes that concern neither exporters nor holdings -/

/-- Links, records and waiting work are the same. A place that comes or goes holds nothing. -/
structure Spares (hub hub' : Hub) : Prop where
  links : hub'.links = hub.links
  records : hub'.records = hub.records
  followUps : ∀ w ∈ hub'.followUps, w ∈ hub.followUps
  kept : ∀ ⦃name : String⦄ ⦃l : List Handle⦄, hub.held? name = some l →
    l = [] ∨ hub'.held? name = some l
  old : ∀ ⦃name : String⦄ ⦃l : List Handle⦄, hub'.held? name = some l →
    l = [] ∧ name ≠ "" ∨ hub.held? name = some l

theorem Spares.refl (hub : Hub) : Spares hub hub :=
  ⟨rfl, rfl, fun _ hw => hw, fun _ _ hl => Or.inr hl, fun _ _ hl => Or.inr hl⟩

theorem Spares.of_held (hlinks : hub'.links = hub.links) (hrecords : hub'.records = hub.records)
    (hfollowUps : ∀ w ∈ hub'.followUps, w ∈ hub.followUps)
    (hheld : ∀ name, hub'.held? name = hub.held? name) : Spares hub hub' :=
  ⟨hlinks, hrecords, hfollowUps, fun name _ hl => Or.inr ((hheld name).trans hl),
    fun name _ hl => Or.inr ((hheld name).symm.trans hl)⟩

theorem Spares.of_writes (hw : Writes hub hub') (hheld : ∀ name, hub'.held? name = hub.held? name) :
    Spares hub hub' := by
  obtain ⟨hlinks, hrecords⟩ := hw.aside
  refine .of_held hlinks hrecords ?_ hheld
  rw [hw.followUps]
  exact fun _ hmem => hmem

theorem spares_schedule (hn : hub.Named) (now : Nat) : Spares hub (hub.schedule now) :=
  .of_writes (writes_schedule .refl now) (held?_schedule hn now)

/-- A new place is stored that holds nothing. -/
theorem spares_newPlace (hn : hub.Named) (hfresh : hub.places.contains p.name = false)
    (hname : p.name ≠ "") (hheld : p.held = []) (now : Nat) :
    Spares hub ((hub.storePlace p).markDirty.schedule now) := by
  have hw : Writes hub ((hub.storePlace p).markDirty.schedule now) :=
    writes_schedule (writes_markDirty (.single (.store p))) now
  have hget := held?_stored hn p now
  have hnone : hub.held? p.name = none := by
    unfold held?
    unfold SortedMap.contains at hfresh
    rw [Option.isSome_eq_false_iff, Option.isNone_iff_eq_none] at hfresh
    rw [hfresh]
    rfl
  obtain ⟨hlinks, hrecords⟩ := hw.aside
  refine ⟨hlinks, hrecords, ?_, ?_, ?_⟩
  · rw [hw.followUps]
    exact fun _ hmem => hmem
  · intro k l hl
    right
    rw [hget, if_neg]
    · exact hl
    · rintro rfl
      rw [hnone] at hl
      cases hl
  · intro k l hl
    rw [hget] at hl
    split at hl
    · rename_i hk
      cases hl
      exact Or.inl ⟨hheld, hk ▸ hname⟩
    · exact Or.inr hl

theorem spares_addDefaultPlace (hn : hub.Named) (now : Nat) (group : String) :
    Spares hub (hub.addDefaultPlace now group) := by
  unfold addDefaultPlace
  split
  · rename_i hc
    simp only [Bool.and_eq_true, Bool.not_eq_true'] at hc
    have hname : group ≠ "" := by
      rintro rfl
      cases hc.1
    split
    · exact .refl hub
    · exact spares_newPlace hn hc.2 hname rfl now
  · exact .refl hub

theorem spares_deletePlace (hn : hub.Named) {now : Nat} (h : hub.deletePlace now name = .ok hub')
    (hempty : ∀ p, hub.places.get? name = some p → p.held = []) : Spares hub hub' := by
  rw [deletePlace_ok h]
  have hwrite : Write hub ({ hub with places := hub.places.erase name }.tellPlaces
      (.deletedPlace name)) := .erase name
  have hw := writes_markDirty (.single hwrite)
  have hget : ∀ k, (({ hub with places := hub.places.erase name }.tellPlaces
      (.deletedPlace name)).markDirty.schedule now).held? k =
        if name = k then none else hub.held? k := by
    intro k
    refine (held?_schedule (Writes.named hw hn) now k).trans ?_
    have herase : (hub.places.erase name).get? k =
        if name = k then none else hub.places.get? k := SortedMap.get?_erase ..
    show ((hub.places.erase name).get? k).map Place.held = _
    rw [herase]
    split <;> rfl
  have hw' := writes_schedule hw now
  obtain ⟨hlinks, hrecords⟩ := Writes.aside hw'
  refine ⟨hlinks, hrecords, ?_, ?_, ?_⟩
  · rw [Writes.followUps hw']
    exact fun _ hmem => hmem
  · intro k l hl
    rw [hget]
    split
    · rename_i hk
      subst hk
      obtain ⟨p, hp, rfl⟩ := Option.map_eq_some_iff.mp hl
      exact Or.inl (hempty p hp)
    · exact Or.inr hl
  · intro k l hl
    rw [hget] at hl
    split at hl
    · cases hl
    · exact Or.inr hl

end Hub

/-! ## Requests without commands -/

namespace Hub

variable {hub hub' : Hub} {name : String} {now : Nat}

theorem Edited.spares (h : Edited now hub name hub') (hn : hub.Named) : Spares hub hub' := by
  obtain ⟨p, q, hp, he, rfl⟩ := h
  refine .of_writes (writes_markDirty (.single (.store _))) ?_
  exact held?_replaced hn hp he.name he.retains.held

theorem spares_addPlace (hn : hub.Named) (h : hub.addPlace now name = .ok hub') :
    Spares hub hub' := by
  obtain ⟨hname, hfresh, _, rfl⟩ := addPlace_ok h
  exact spares_newPlace hn (p := Place.new name now) hfresh hname rfl now

theorem spares_setTags (hn : hub.Named) {tags : SortedMap String String}
    (h : hub.setTags now name tags = .ok hub') : Spares hub hub' := by
  obtain ⟨_, p, hp, rfl⟩ := setTags_ok h
  generalize hq : ({ p with tags := Place.setTags p.tags tags.toList } : Place).touch now = q
  have hsame : ∀ k, (hub.storePlace q).held? k = hub.held? k :=
    held?_replaced hn hp (by rw [← hq]; rfl) (by rw [← hq]; rfl)
  refine .of_writes (writes_schedule (writes_markDirty (.single (.store q))) now) ?_
  exact fun k => (held?_schedule (named_stored hn q) now k).trans (hsame k)

/-- A pass over changed reservations. -/
theorem spares_rescheduled (hn : hub.Named) (rs : SortedMap Token Reservation) (now : Nat) :
    Spares hub ({ hub with reservations := rs }.schedule now) := by
  have hplan : Writes hub { hub with reservations := rs } :=
    .single (.plan rs hub.retries hub.dirty)
  have hnamed : Named { hub with reservations := rs } := hn
  exact .of_writes (writes_schedule hplan now) (held?_schedule hnamed now)

theorem spares_poll {text : String} {r : Reservation} (h : hub.poll now text = .ok (r, hub')) :
    Spares hub hub' := by
  rcases poll_ok h with rfl | ⟨_, r, _, _, rfl⟩
  · exact .refl hub'
  · exact .of_writes (.single (.plan _ hub.retries hub.dirty)) (fun _ => rfl)

theorem spares_hearClient (hub : Hub) (id : Nat) (m : ClientRequest) :
    Spares hub (hub.hearClient id m) := by
  have hclients : ∀ hub' : Hub, hub'.links = hub.links → hub'.records = hub.records →
      hub'.followUps = hub.followUps → hub'.places = hub.places → Spares hub hub' := by
    intro hub' hlinks hrecords hfollowUps hplaces
    refine .of_held hlinks hrecords ?_ (held?_of_places hplaces)
    rw [hfollowUps]
    exact fun _ hw => hw
  cases m with
  | startup name version => exact hclients _ rfl rfl rfl rfl
  | sync n => exact hclients _ rfl rfl rfl rfl
  | subscribe places resources =>
    cases places <;> cases resources <;> exact hclients _ rfl rfl rfl rfl
  | blank => exact .refl hub

end Hub

end BoardFarm
