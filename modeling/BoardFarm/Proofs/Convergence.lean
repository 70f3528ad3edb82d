import BoardFarm.Proofs.OrphanFlags
import BoardFarm.Proofs.SyncPasses
import Mathlib.Data.List.Flatten

/-!
# Convergence of reconciliation

A pass whose commands are all confirmed leaves nothing to do for the next one, but for resources
that were claimed for another place than the one which holds them. Such a claim is released by
the pass, which finds the resource held but not free; the next pass finds it free, and acquires it
for its holder. Then nothing is left to do.

* `Hub.Misclaimed`: a claim for another place than the holder.
* `Hub.Steady`: nothing is left to do.
* `Station.Course.steady_iff`: what a confirmed pass, and a second one, leave to do.
* `Station.misclaimed_relay`: a resource that takes two passes.
-/

namespace BoardFarm

namespace Hub

/-- What the passes of reconciliation may rely on. -/
structure Orderly (hub : Hub) : Prop where
  named : hub.Named
  filed : hub.Filed
  sole : SoleOwner hub.places
  fresh : ∀ x ∈ hub.published, hub.isOrphaned x = false

/-- A place holds a resource of the path. -/
def Keeps (hub : Hub) (name : String) (path : ResourcePath) : Prop :=
  ∃ p, hub.places.get? name = some p ∧ path ∈ p.held.map Handle.path

/-- A place holds a resource of the path, and the exporter reports it as held by another one. -/
def Misclaimed (hub : Hub) (path : ResourcePath) (name : String) : Prop :=
  hub.Keeps name path ∧
    ∃ x ∈ hub.published, x.path = path ∧ ∃ q, hub.claimOf x = .place q ∧ q ≠ name

/-- A pass tries no command, changes nothing and reports nothing, whenever it is made; only the
retries whose windows have passed are forgotten. -/
def Steady (hub : Hub) : Prop :=
  ∀ ⦃ω : Type⦄ (react : Surroundings ω) (around : ω) (c : Clock),
    (Run.start hub around).synchronize react c =
      (SyncReport.nothing, (Run.start hub around).modify (fun hub =>
        { hub with retries := hub.retries.prune c.now }))

variable {hub hub' : Hub} {path : ResourcePath} {name : String}

/-! ## The plan of a hub -/

theorem Filed.get?_publishedMap (hf : hub.Filed) {x : Handle} :
    hub.publishedMap.get? path = some x ↔ x ∈ hub.published ∧ x.path = path := by
  unfold publishedMap
  rw [SortedMap.get?_ofList_iff]
  · constructor
    · intro hmem
      obtain ⟨y, hy, he⟩ := List.mem_map.mp hmem
      obtain ⟨hpath, rfl⟩ := Prod.mk.inj he
      exact ⟨hy, hpath⟩
    · rintro ⟨hx, rfl⟩
      exact List.mem_map.mpr ⟨x, hx, rfl⟩
  · intro k v w hv hw
    obtain ⟨y, hy, he⟩ := List.mem_map.mp hv
    obtain ⟨z, hz, he'⟩ := List.mem_map.mp hw
    obtain ⟨hpath, rfl⟩ := Prod.mk.inj he
    obtain ⟨hpath', rfl⟩ := Prod.mk.inj he'
    exact List.inj_on_of_nodup_map hf.nodup_published hy hz (hpath.trans hpath'.symm)

theorem Filed.get?_claims (hf : hub.Filed) {claim : Claim} :
    (hub.publishedMap.mapValues (fun _ x => hub.claimOf x)).get? path = some claim ↔
      ∃ x ∈ hub.published, x.path = path ∧ hub.claimOf x = claim := by
  rw [SortedMap.get?_mapValues_eq_some_iff]
  constructor
  · rintro ⟨x, hx, hclaim⟩
    obtain ⟨hmem, hpath⟩ := hf.get?_publishedMap.mp hx
    exact ⟨x, hmem, hpath, hclaim⟩
  · rintro ⟨x, hmem, hpath, hclaim⟩
    exact ⟨x, hf.get?_publishedMap.mpr ⟨hmem, hpath⟩, hclaim⟩

theorem Orderly.mem_holdings_iff (h : hub.Orderly) {e : Holding ResourcePath} :
    e ∈ hub.holdings ↔ ∃ p x, hub.places.get? e.place = some p ∧ x ∈ p.held ∧ x.path = e.path ∧
      hub.isOrphaned x = e.orphaned := by
  unfold holdings
  simp only [List.mem_flatMap, List.mem_filter, List.mem_map]
  constructor
  · rintro ⟨p, ⟨hp, _⟩, x, hx, rfl⟩
    exact ⟨p, x, h.named.get?_name hp, hx, rfl, rfl⟩
  · rintro ⟨p, x, hp, hx, hpath, hflag⟩
    have hheld : p.acquired.isSome := by
      by_contra hnone
      have hfree : p.acquired = none := by simpa using hnone
      rw [(h.sole.free hp hfree).1] at hx
      cases hx
    refine ⟨p, ⟨SortedMap.mem_values_iff.mpr ⟨_, hp⟩, hheld⟩, x, hx, ?_⟩
    rw [h.named _ p hp, hpath, hflag]

theorem Orderly.keeps_iff (h : hub.Orderly) :
    (∃ e ∈ hub.holdings, e.path = path ∧ e.place = name) ↔ hub.Keeps name path := by
  constructor
  · rintro ⟨e, he, rfl, rfl⟩
    obtain ⟨p, x, hp, hx, hpath, _⟩ := h.mem_holdings_iff.mp he
    exact ⟨p, hp, List.mem_map.mpr ⟨x, hx, hpath⟩⟩
  · rintro ⟨p, hp, hmem⟩
    obtain ⟨x, hx, hpath⟩ := List.mem_map.mp hmem
    exact ⟨⟨name, path, hub.isOrphaned x⟩, h.mem_holdings_iff.mpr ⟨p, x, hp, hx, hpath, rfl⟩,
      rfl, rfl⟩

theorem Orderly.keeps_unique (h : hub.Orderly) {name' : String} (hk : hub.Keeps name path)
    (hk' : hub.Keeps name' path) : name = name' := by
  obtain ⟨p, hp, hmem⟩ := hk
  obtain ⟨p', hp', hmem'⟩ := hk'
  obtain ⟨x, hx, rfl⟩ := List.mem_map.mp hmem
  by_contra hne
  have hnot := h.sole.apart hp hp' hne x hx
  rw [Place.holdsPath_eq_false_iff] at hnot
  exact hnot hmem'

theorem Orderly.nodup_holdings (h : hub.Orderly) : (hub.holdings.map Holding.path).Nodup := by
  have hpaths : hub.holdings.map Holding.path =
      (hub.places.values.filter (fun p => p.acquired.isSome)).flatMap
        (fun p => p.held.map Handle.path) := by
    unfold holdings
    rw [List.map_flatMap]
    simp only [List.map_map]
    rfl
  rw [hpaths]
  exact h.sole.nodup.sublist (List.filter_sublist.flatMap _)

theorem Orderly.mem_release_iff (h : hub.Orderly) : path ∈ hub.driftPlan.release ↔
    ∃ x ∈ hub.published, x.path = path ∧ ∃ q, hub.claimOf x = .place q ∧ ¬ hub.Keeps q path := by
  unfold driftPlan
  rw [DriftPlan.mem_release_iff]
  have hnot : ∀ q, (∀ e ∈ hub.holdings, e.path = path → e.place ≠ q) ↔ ¬ hub.Keeps q path := by
    intro q
    rw [← h.keeps_iff]
    simp
  simp only [h.filed.get?_claims, hnot]
  constructor
  · rintro ⟨q, ⟨x, hx, hpath, hclaim⟩, hq⟩
    exact ⟨x, hx, hpath, q, hclaim, hq⟩
  · rintro ⟨x, hx, hpath, q, hclaim, hq⟩
    exact ⟨q, ⟨x, hx, hpath, hclaim⟩, hq⟩

theorem Orderly.mem_acquire_iff (h : hub.Orderly) : (path, name) ∈ hub.driftPlan.acquire ↔
    (∃ x ∈ hub.published, x.path = path ∧ hub.claimOf x = .free) ∧ hub.Keeps name path := by
  unfold driftPlan
  rw [DriftPlan.mem_acquire_iff, h.filed.get?_claims, h.keeps_iff]
  have hsole := DriftPlan.not_contested_of_nodup h.nodup_holdings path
  simp [hsole]

theorem Orderly.mem_replace_iff (h : hub.Orderly) : (path, name) ∈ hub.driftPlan.replace ↔
    (∃ x ∈ hub.published, x.path = path ∧
      (hub.claimOf x = .free ∨ hub.claimOf x = .place name)) ∧
    ∃ p y, hub.places.get? name = some p ∧ y ∈ p.held ∧ y.path = path ∧
      hub.isOrphaned y = true := by
  unfold driftPlan
  rw [DriftPlan.mem_replace_iff, h.filed.get?_claims, h.filed.get?_claims]
  have hsole := DriftPlan.not_contested_of_nodup h.nodup_holdings path
  constructor
  · rintro ⟨hclaim, _, e, he, rfl, rfl, horphaned⟩
    obtain ⟨p, y, hp, hy, hpath, hflag⟩ := h.mem_holdings_iff.mp he
    refine ⟨?_, p, y, hp, hy, hpath, hflag.trans horphaned⟩
    rcases hclaim with ⟨x, hx, hpath, hfree⟩ | ⟨x, hx, hpath, hheld⟩
    · exact ⟨x, hx, hpath, Or.inl hfree⟩
    · exact ⟨x, hx, hpath, Or.inr hheld⟩
  · rintro ⟨⟨x, hx, hpath, hclaim⟩, p, y, hp, hy, hypath, hflag⟩
    refine ⟨?_, hsole, ⟨name, path, true⟩, h.mem_holdings_iff.mpr ⟨p, y, hp, hy, hypath, hflag⟩,
      rfl, rfl, rfl⟩
    exact hclaim.imp (fun hfree => ⟨x, hx, hpath, hfree⟩) (fun hheld => ⟨x, hx, hpath, hheld⟩)

theorem Orderly.conflicts_eq_nil (h : hub.Orderly) : hub.driftPlan.conflicts = [] := by
  rw [List.eq_nil_iff_forall_not_mem]
  rintro ⟨path, names⟩ hmem
  exact DriftPlan.not_contested_of_nodup h.nodup_holdings path
    (DriftPlan.mem_conflicts_iff.mp hmem).1

/-- No pass has anything to do under an empty plan. -/
theorem steady_of_isEmpty (hrelease : hub.driftPlan.release = [])
    (hacquire : hub.driftPlan.acquire = []) (hreplace : hub.driftPlan.replace = [])
    (hconflicts : hub.driftPlan.conflicts = []) : hub.Steady := by
  intro ω react around c
  have hstart : (Run.start hub around).hub = hub := rfl
  unfold Run.synchronize
  dsimp only
  rw [hstart, hrelease, hacquire, hreplace, hconflicts]
  rfl

/-- A published handle is not flagged as an orphan. -/
theorem Accounted.isOrphaned_published {l : List (Hub × Event)} (h : Accounted l hub) {x : Handle}
    (hx : x ∈ hub.published) : hub.isOrphaned x = false := by
  cases h.accounts x (h.filed.serials hx) with
  | kept _ _ hflag _ => exact hflag
  | dropped _ _ _ hgone _ => exact absurd rfl (hgone x hx)

/-! ## Behind a confirmed pass -/

/-- The commands of a plan. -/
def planned (plan : DriftPlan ResourcePath) : List (ResourcePath × Option String) :=
  plan.release.map (fun path => (path, none)) ++ plan.acquire.map (fun e => (e.1, some e.2))

/-- The hub behind a pass whose commands have all been confirmed. -/
structure Corrected (hub hub' : Hub) : Prop where
  published : hub'.published = hub.published
  flags : ∀ y, hub'.isOrphaned y = hub.isOrphaned y
  commanded : ∀ x ∈ hub.published, ∀ place, (x.path, place) ∈ planned hub.driftPlan →
    hub'.holder x = place
  others : ∀ x ∈ hub.published, x.path ∉ (planned hub.driftPlan).map Prod.fst →
    hub'.holder x = hub.holder x
  kept : ∀ {k : String} {p : Place}, hub.places.get? k = some p → ∃ p',
    hub'.places.get? k = some p' ∧
      SyncState.Renews hub.publishedMap hub.driftPlan.replace k p p'
  old : ∀ {k : String} {p' : Place}, hub'.places.get? k = some p' → ∃ p,
    hub.places.get? k = some p ∧ SyncState.Renews hub.publishedMap hub.driftPlan.replace k p p'

theorem Corrected.keeps_iff (hc : Corrected hub hub') :
    hub'.Keeps name path ↔ hub.Keeps name path := by
  constructor
  · rintro ⟨p', hp', hmem⟩
    obtain ⟨p, hp, hrenews⟩ := hc.old hp'
    exact ⟨p, hp, hrenews.paths ▸ hmem⟩
  · rintro ⟨p, hp, hmem⟩
    obtain ⟨p', hp', hrenews⟩ := hc.kept hp
    exact ⟨p', hp', hrenews.paths.symm ▸ hmem⟩

/-- What the exporters are known to say behind the pass: a stray is free, a lost resource is
claimed for its holder unless this is a marker of a defect, and nothing else has changed. -/
theorem Corrected.claimOf_cases (hc : Corrected hub hub') {x : Handle} (hx : x ∈ hub.published) :
    (x.path ∈ hub.driftPlan.release ∧ hub'.claimOf x = .free) ∨
    (∃ k, (x.path, k) ∈ hub.driftPlan.acquire ∧
      (hub'.claimOf x = .broken ∨ hub'.claimOf x = .place k)) ∨
    (x.path ∉ hub.driftPlan.release ∧ (∀ k, (x.path, k) ∉ hub.driftPlan.acquire) ∧
      hub'.claimOf x = hub.claimOf x) := by
  by_cases hrelease : x.path ∈ hub.driftPlan.release
  · have hfree := hc.commanded x hx none
      (List.mem_append_left _ (List.mem_map.mpr ⟨_, hrelease, rfl⟩))
    refine Or.inl ⟨hrelease, ?_⟩
    unfold claimOf
    rw [hfree]
  · right
    by_cases hacquire : ∃ k, (x.path, k) ∈ hub.driftPlan.acquire
    · obtain ⟨k, hk⟩ := hacquire
      have hheld := hc.commanded x hx (some k)
        (List.mem_append_right _ (List.mem_map.mpr ⟨_, hk, rfl⟩))
      refine Or.inl ⟨k, hk, ?_⟩
      unfold claimOf
      rw [hheld]
      dsimp only
      split
      · exact Or.inl rfl
      · exact Or.inr rfl
    · have hnone : ∀ k, (x.path, k) ∉ hub.driftPlan.acquire := fun k hk => hacquire ⟨k, hk⟩
      refine Or.inr ⟨hrelease, hnone, ?_⟩
      have hsame : hub'.holder x = hub.holder x := by
        apply hc.others x hx
        unfold planned
        rw [List.map_append, List.mem_append, not_or, List.map_map, List.map_map]
        constructor
        · intro hmem
          obtain ⟨path, hpath, he⟩ := List.mem_map.mp hmem
          have he' : path = x.path := he
          exact hrelease (he' ▸ hpath)
        · intro hmem
          obtain ⟨⟨path, k⟩, hpath, he⟩ := List.mem_map.mp hmem
          have he' : path = x.path := he
          exact hnone k (he' ▸ hpath)
      unfold claimOf
      rw [hsame]

/-- A claim for another place than the holder is released, so none is left. -/
theorem Corrected.not_misclaimed (hc : Corrected hub hub') (h : hub.Orderly) :
    ¬ hub'.Misclaimed path name := by
  rintro ⟨hkeeps, x, hx, rfl, q, hclaim, hne⟩
  rw [hc.published] at hx
  rw [hc.keeps_iff] at hkeeps
  rcases hc.claimOf_cases hx with ⟨_, hfree⟩ | ⟨k, hk, hbroken | hheld⟩ | ⟨hrelease, _, hsame⟩
  · rw [hclaim] at hfree
    cases hfree
  · rw [hclaim] at hbroken
    cases hbroken
  · rw [hclaim] at hheld
    cases hheld
    exact hne (h.keeps_unique (h.mem_acquire_iff.mp hk).2 hkeeps)
  · rw [hclaim] at hsame
    by_cases hq : hub.Keeps q x.path
    · exact hne (h.keeps_unique hq hkeeps)
    · exact hrelease (h.mem_release_iff.mpr ⟨x, hx, rfl, q, hsame.symm, hq⟩)

theorem Corrected.release_eq_nil (hc : Corrected hub hub') (h : hub.Orderly) (h' : hub'.Orderly) :
    hub'.driftPlan.release = [] := by
  rw [List.eq_nil_iff_forall_not_mem]
  intro path hmem
  obtain ⟨x, hx, rfl, q, hclaim, hnot⟩ := h'.mem_release_iff.mp hmem
  rw [hc.published] at hx
  rw [hc.keeps_iff] at hnot
  rcases hc.claimOf_cases hx with ⟨_, hfree⟩ | ⟨k, hk, hbroken | hheld⟩ | ⟨hrelease, _, hsame⟩
  · rw [hclaim] at hfree
    cases hfree
  · rw [hclaim] at hbroken
    cases hbroken
  · rw [hclaim] at hheld
    cases hheld
    exact hnot (h.mem_acquire_iff.mp hk).2
  · rw [hclaim] at hsame
    exact hrelease (h.mem_release_iff.mpr ⟨x, hx, rfl, q, hsame.symm, hnot⟩)

/-- A held resource that is free behind the pass was claimed for another place. -/
theorem Corrected.misclaimed_of_free (hc : Corrected hub hub') (h : hub.Orderly) {x : Handle}
    (hx : x ∈ hub.published) (hkeeps : hub.Keeps name x.path) (hfree : hub'.claimOf x = .free) :
    hub.Misclaimed x.path name := by
  rcases hc.claimOf_cases hx with ⟨hrelease, _⟩ | ⟨k, hk, hbroken | hheld⟩ | ⟨_, hacquire, hsame⟩
  · obtain ⟨y, hy, hpath, q, hclaim, hnot⟩ := h.mem_release_iff.mp hrelease
    refine ⟨hkeeps, y, hy, hpath, q, hclaim, ?_⟩
    rintro rfl
    exact hnot hkeeps
  · rw [hfree] at hbroken
    cases hbroken
  · rw [hfree] at hheld
    cases hheld
  · rw [hfree] at hsame
    exact absurd (h.mem_acquire_iff.mpr ⟨⟨x, hx, rfl, hsame.symm⟩, hkeeps⟩) (hacquire name)

/-- A claim for another place than the holder is released. -/
theorem Corrected.free_of_misclaimed (hc : Corrected hub hub') (h : hub.Orderly) {x : Handle}
    (hx : x ∈ hub.published) (hmis : hub.Misclaimed x.path name) :
    x ∈ hub'.published ∧ hub'.claimOf x = .free := by
  obtain ⟨hkeeps, y, hy, hpath, q, hclaim, hne⟩ := hmis
  have hnot : ¬ hub.Keeps q x.path := fun hq => hne (h.keeps_unique hq hkeeps)
  have hrelease : x.path ∈ hub.driftPlan.release :=
    h.mem_release_iff.mpr ⟨y, hy, hpath, q, hclaim, hnot⟩
  have hfree := hc.commanded x hx none
    (List.mem_append_left _ (List.mem_map.mpr ⟨_, hrelease, rfl⟩))
  refine ⟨hc.published.symm ▸ hx, ?_⟩
  unfold claimOf
  rw [hfree]

theorem Corrected.mem_acquire_iff (hc : Corrected hub hub') (h : hub.Orderly) (h' : hub'.Orderly) :
    (path, name) ∈ hub'.driftPlan.acquire ↔ hub.Misclaimed path name := by
  rw [h'.mem_acquire_iff, hc.keeps_iff]
  constructor
  · rintro ⟨⟨x, hx, rfl, hfree⟩, hkeeps⟩
    rw [hc.published] at hx
    exact hc.misclaimed_of_free h hx hkeeps hfree
  · rintro ⟨hkeeps, x, hx, rfl, hother⟩
    obtain ⟨hx', hfree⟩ := hc.free_of_misclaimed h hx ⟨hkeeps, x, hx, rfl, hother⟩
    exact ⟨⟨x, hx', rfl, hfree⟩, hkeeps⟩

/-- An orphan is left only where a resource was claimed for another place. -/
theorem Corrected.misclaimed_of_replace (hc : Corrected hub hub') (h : hub.Orderly)
    (h' : hub'.Orderly) (hmem : (path, name) ∈ hub'.driftPlan.replace) :
    hub.Misclaimed path name := by
  obtain ⟨⟨x, hx, hpath, hclaim⟩, p', y, hp', hy, hypath, hflag⟩ := h'.mem_replace_iff.mp hmem
  subst hpath
  rw [hc.published] at hx
  obtain ⟨p, hp, hrenews⟩ := hc.old hp'
  rw [hc.flags] at hflag
  -- a published handle is not flagged, so the orphan has been held before, and was not replaced
  obtain ⟨hold, hnot⟩ : y ∈ p.held ∧ (y.path, name) ∉ hub.driftPlan.replace := by
    rcases hrenews.held y hy with hfresh | hold
    · have hunflagged := h.fresh y (h.filed.get?_publishedMap.mp hfresh).1
      rw [hunflagged] at hflag
      cases hflag
    · exact hold
  rw [hypath] at hnot
  have hkeeps : hub.Keeps name x.path := ⟨p, hp, List.mem_map.mpr ⟨y, hold, hypath⟩⟩
  rcases hclaim with hfree | hheld
  · exact hc.misclaimed_of_free h hx hkeeps hfree
  · rcases hc.claimOf_cases hx with ⟨_, hfree⟩ | ⟨k, hk, _⟩ | ⟨_, _, hsame⟩
    · rw [hheld] at hfree
      cases hfree
    · obtain ⟨⟨z, hz, hzpath, hfree⟩, _⟩ := h.mem_acquire_iff.mp hk
      exact absurd (h.mem_replace_iff.mpr
        ⟨⟨z, hz, hzpath, Or.inl hfree⟩, p, y, hp, hold, hypath, hflag⟩) hnot
    · rw [hheld] at hsame
      exact absurd (h.mem_replace_iff.mpr
        ⟨⟨x, hx, rfl, Or.inr hsame.symm⟩, p, y, hp, hold, hypath, hflag⟩) hnot

theorem Corrected.steady (hc : Corrected hub hub') (h : hub.Orderly) (h' : hub'.Orderly)
    (hnone : ∀ path name, ¬ hub.Misclaimed path name) : hub'.Steady := by
  refine steady_of_isEmpty (hc.release_eq_nil h h') ?_ ?_ h'.conflicts_eq_nil <;>
    rw [List.eq_nil_iff_forall_not_mem]
  · exact fun e he => hnone e.1 e.2 ((hc.mem_acquire_iff h h').mp he)
  · exact fun e he => hnone e.1 e.2 (hc.misclaimed_of_replace h h' he)

end Hub

/-! ## Passes -/

namespace Run

variable {ω : Type} {react : Surroundings ω} {c : Clock} {hub : Hub} {around : ω}

/-- No stray is to be acquired, for a resource is not claimed and free at once. -/
theorem release_apart_acquire (hub : Hub) :
    ∀ path ∈ (hub.driftPlan.release.map (fun path => (path, (none : Option String)))).map Prod.fst,
      path ∉ (hub.driftPlan.acquire.map (fun e => (e.1, some e.2))).map Prod.fst := by
  simp only [List.map_map]
  intro path hmem hmem'
  obtain ⟨path, hrelease, rfl⟩ := List.mem_map.mp hmem
  exact (DriftPlan.release_apart hrelease).1 hmem'

/-- The commands of a pass, if they are all confirmed while nothing else happens. -/
theorem commanded_pass (h : hub.Orderly) {s₀ s₁ s₂ : SyncState ω}
    (hplaces : s₀.run.hub.places = hub.places) (hlinks : s₀.run.hub.links = hub.links)
    (hrecords : s₀.run.hub.records = hub.records) (hspare : s₀.run.hub.retries.Spare)
    (h₁ : hub.driftPlan.release.foldl
      (fun s path => s.releaseStray react hub.publishedMap path) s₀ = s₁)
    (h₂ : hub.driftPlan.acquire.foldl (fun s e => s.acquireLost react hub.publishedMap e)
      { s₁ with unresolved := [] } = s₂)
    {tail : List Attempt} (hattempts : s₂.run.attempts = s₀.run.attempts ++ tail)
    (hobeyed : hub.Obeyed tail) :
    Hub.Commanded (Hub.planned hub.driftPlan) hub s₂.run.hub ∧ s₂.run.hub.retries.Spare ∧
      s₂.unresolved = [] := by
  have hreleases : SyncState.Issues react hub.publishedMap
      (fun s path => s.releaseStray react hub.publishedMap path) (fun path => path)
      (fun _ => none) := SyncState.issues_releaseStray
  have hacquires : SyncState.Issues react hub.publishedMap
      (fun s e => s.acquireLost react hub.publishedMap e) Prod.fst (fun e => some e.2) :=
    SyncState.issues_acquireLost
  have hpublished : s₀.run.hub.published = hub.published := Hub.published_of_links hlinks
  obtain ⟨tail₁, htail₁⟩ := hreleases.extends hub.driftPlan.release s₀
  obtain ⟨tail₂, htail₂⟩ := hacquires.extends hub.driftPlan.acquire { s₁ with unresolved := [] }
  have htail : tail = tail₁ ++ (tail₂ ++ []) := by
    rw [h₁] at htail₁
    rw [h₂, htail₁, hattempts, List.append_assoc] at htail₂
    rw [List.append_nil]
    exact List.append_cancel_left htail₂
  subst htail
  have hfiled₀ : s₀.run.hub.Filed := h.filed.shrink (.of_eq hlinks hrecords)
  have hlisted₁ : ∀ path ∈ hub.driftPlan.release, ∃ x ∈ s₀.run.hub.published, x.path = path ∧
      hub.publishedMap.get? path = some x := by
    intro path hmem
    obtain ⟨x, hx, hpath, _⟩ := h.mem_release_iff.mp hmem
    exact ⟨x, hpublished ▸ hx, hpath, h.filed.get?_publishedMap.mpr ⟨hx, hpath⟩⟩
  have hnodup₁ : (hub.driftPlan.release.map (fun path => path)).Nodup := by
    rw [List.map_id']
    exact DriftPlan.nodup_release
  obtain ⟨hobeyed₁, hfiled₁, hspare₁, _, hcommanded₁⟩ := hreleases.foldl_obeyed hfiled₀ hspare
    hlisted₁ hnodup₁ htail₁ (hobeyed.of_same hpublished hrecords)
  rw [h₁] at hobeyed₁ hfiled₁ hspare₁ hcommanded₁
  have hlisted₂ : ∀ e ∈ hub.driftPlan.acquire, ∃ x ∈ s₁.run.hub.published, x.path = e.1 ∧
      hub.publishedMap.get? e.1 = some x := by
    rintro ⟨path, name⟩ hmem
    obtain ⟨⟨x, hx, hpath, _⟩, _⟩ := h.mem_acquire_iff.mp hmem
    refine ⟨x, ?_, hpath, h.filed.get?_publishedMap.mpr ⟨hx, hpath⟩⟩
    rw [hcommanded₁.published, hpublished]
    exact hx
  obtain ⟨_, _, hspare₂, hresolved₂, hcommanded₂⟩ := hacquires.foldl_obeyed
    (s := { s₁ with unresolved := [] }) hfiled₁ hspare₁ hlisted₂
    (DriftPlan.nodup_acquire h.nodup_holdings) htail₂ hobeyed₁
  rw [h₂] at hspare₂ hresolved₂ hcommanded₂
  have hstart : Hub.Commanded [] hub s₀.run.hub := by
    refine ⟨hplaces, hpublished, Hub.isOrphaned_of_records hrecords, ?_, ?_⟩
    · exact fun _ _ _ hmem => absurd hmem List.not_mem_nil
    · intro x _ _
      unfold Hub.holder Hub.record
      rw [hrecords]
  have hall := hcommanded₁.append hcommanded₂ (release_apart_acquire hub)
  exact ⟨hstart.append hall (fun _ hmem => absurd hmem List.not_mem_nil), hspare₂, hresolved₂⟩

/-- What a pass does whose commands are all confirmed while nothing else happens. -/
theorem corrected_synchronize (h : hub.Orderly)
    (hleft : ∀ key, hub.retries.isExhausted c.now key = false)
    (hobeyed : hub.Obeyed ((start hub around).synchronize react c).2.attempts) :
    Hub.Corrected hub ((start hub around).synchronize react c).2.hub ∧
      ((start hub around).synchronize react c).2.hub.retries.Spare := by
  obtain ⟨s₀, s₁, s₂, s₃, hhub, hnone, _, hs₁, hs₂, hs₃, hrun, hattempts⟩ :=
    synchronize_parts react around c hub
  rw [hrun, hattempts] at hobeyed
  rw [hrun]
  have hspare₀ : s₀.run.hub.retries.Spare := by
    rw [hhub]
    exact RetryBudget.spare_prune hleft
  have hall : s₂.run.attempts = s₀.run.attempts ++ s₂.run.attempts := by
    rw [hnone]
    rfl
  obtain ⟨hcommanded, hspare₂, hresolved₂⟩ := commanded_pass h (by rw [hhub])
    (by rw [hhub]) (by rw [hhub]) hspare₀ hs₁ hs₂ hall hobeyed
  have honce : ∀ k p, s₂.run.hub.places.get? k = some p → (p.held.map Handle.path).Nodup := by
    rw [hcommanded.places]
    exact fun k p hp => h.sole.once hp
  have hlisted : ∀ e ∈ hub.driftPlan.replace, ∃ x, hub.publishedMap.get? e.1 = some x ∧
      x.path = e.1 := by
    rintro ⟨path, name⟩ hmem
    obtain ⟨⟨x, hx, hpath, _⟩, _⟩ := h.mem_replace_iff.mp hmem
    exact ⟨x, h.filed.get?_publishedMap.mpr ⟨hx, hpath⟩, hpath⟩
  have hrenewed := SyncState.foldl_replaceOrphan c.last
    (h.named.of_places hcommanded.places) honce hlisted hresolved₂
  rw [hs₃] at hrenewed
  have hholder : ∀ y, s₃.run.hub.holder y = s₂.run.hub.holder y := by
    intro y
    unfold Hub.holder Hub.record
    rw [hrenewed.records]
  refine ⟨⟨?_, ?_, ?_, ?_, ?_, ?_⟩, ?_⟩
  · rw [Hub.published_of_links hrenewed.links]
    exact hcommanded.published
  · intro y
    rw [Hub.isOrphaned_of_records hrenewed.records]
    exact hcommanded.flags y
  · intro x hx place hmem
    rw [hholder]
    exact hcommanded.commanded x hx place hmem
  · intro x hx hnot
    rw [hholder]
    exact hcommanded.others x hx hnot
  · intro k p hp
    rw [← hcommanded.places] at hp
    exact hrenewed.kept hp
  · intro k p' hp'
    obtain ⟨p, hp, hrenews⟩ := hrenewed.old hp'
    rw [hcommanded.places] at hp
    exact ⟨p, hp, hrenews⟩
  · rw [hrenewed.retries]
    exact hspare₂

/-- A pass without strays commands only lost resources to be acquired, and it tries a command if
there is one. -/
theorem attempts_synchronize (react : Surroundings ω) (around : ω) (c : Clock) (h : hub.Orderly)
    (hrelease : hub.driftPlan.release = []) (hspare : hub.retries.Spare) :
    (∀ a ∈ ((start hub around).synchronize react c).2.attempts, ∃ name,
      a.place = some name ∧ (a.handle.path, name) ∈ hub.driftPlan.acquire) ∧
    (((start hub around).synchronize react c).2.attempts = [] → hub.driftPlan.acquire = []) := by
  have hacquires : SyncState.Issues react hub.publishedMap
      (fun s e => s.acquireLost react hub.publishedMap e) Prod.fst (fun e => some e.2) :=
    SyncState.issues_acquireLost
  obtain ⟨s₀, s₁, s₂, s₃, hhub, hnone, _, hs₁, hs₂, _, hrun, hlast⟩ :=
    synchronize_parts react around c hub
  rw [hrelease] at hs₁
  have hattempts : ((start hub around).synchronize react c).2.attempts =
      (hub.driftPlan.acquire.foldl (fun (s : SyncState ω) e =>
          s.acquireLost react hub.publishedMap e)
        { s₀ with unresolved := [] }).run.attempts := by
    rw [hrun, hlast, ← hs₂, ← hs₁]
    rfl
  rw [hattempts]
  constructor
  · intro a ha
    rcases hacquires.mem_tried ha with hold | ⟨e, he, hget, hplace⟩
    · rw [hnone] at hold
      cases hold
    · refine ⟨e.2, hplace, ?_⟩
      rw [(h.filed.get?_publishedMap.mp hget).2]
      exact he
  · intro hnil
    cases hlost : hub.driftPlan.acquire with
    | nil => rfl
    | cons e rest =>
      obtain ⟨⟨x, hx, hpath, _⟩, _⟩ := h.mem_acquire_iff.mp
        (hlost ▸ List.mem_cons_self .. : (e.1, e.2) ∈ hub.driftPlan.acquire)
      have hleft : s₀.run.hub.retries.isExhausted s₀.clock.next.now e.1.text = false := by
        rw [hhub]
        exact (hspare.prune c.now).isExhausted _ _
      obtain ⟨a, _, _, _, _, htried, _⟩ := SyncState.command_spec react
        { s₀ with unresolved := [] } (some e.2)
        (h.filed.get?_publishedMap.mpr ⟨hx, hpath⟩) hleft
      obtain ⟨tail, htail⟩ := hacquires.extends rest
        (SyncState.acquireLost react hub.publishedMap { s₀ with unresolved := [] } e)
      rw [hlost, List.foldl_cons, htail, hacquires.run, htried] at hnil
      simp at hnil

/-- Behind a confirmed pass nothing is left to do just if no held resource was claimed for another
place. -/
theorem steady_confirmed_iff {hub' : Hub} (h : hub.Orderly) (h' : hub'.Orderly)
    (hc : Hub.Corrected hub hub') (hspare : hub'.retries.Spare) :
    hub'.Steady ↔ ∀ path name, ¬ hub.Misclaimed path name := by
  refine ⟨?_, hc.steady h h'⟩
  intro hsteady path name hmis
  have hlost := (hc.mem_acquire_iff h h').mpr hmis
  -- a pass would try a command
  have hquiet := hsteady (fun _ around => ([], around)) () ⟨[], 0⟩
  have hnone := (attempts_synchronize _ () ⟨[], 0⟩ h' (hc.release_eq_nil h h') hspare).2
    (by rw [hquiet]; rfl)
  rw [hnone] at hlost
  exact absurd hlost List.not_mem_nil

/-- Behind a confirmed pass only held resources are commanded that were claimed for another place,
and where these commands are confirmed as well, nothing is left to do. -/
theorem steady_next {hub' : Hub} (h : hub.Orderly) (h' : hub'.Orderly)
    (hc : Hub.Corrected hub hub') (hspare : hub'.retries.Spare) {next : Run ω}
    (hnext : ((start hub' around).synchronize react c).2 = next) (horderly : next.hub.Orderly) :
    (∀ a ∈ next.attempts, ∃ name, a.place = some name ∧ hub.Misclaimed a.handle.path name) ∧
      (hub'.Obeyed next.attempts → next.hub.Steady) := by
  subst hnext
  constructor
  · intro a ha
    obtain ⟨name, hplace, hmem⟩ :=
      (attempts_synchronize react around c h' (hc.release_eq_nil h h') hspare).1 a ha
    exact ⟨name, hplace, (hc.mem_acquire_iff h h').mp hmem⟩
  · intro hobeyed
    have hc' := (corrected_synchronize h' (hspare.isExhausted c.now) hobeyed).1
    exact hc'.steady h' horderly (fun _ _ => hc.not_misclaimed h)

end Run

namespace Station

variable {settings : HubSettings} {directory : Option StateDirectory} {start s : Station}
  {turns : List Turn}

theorem Course.orderly (h : Station.start settings directory = .ok start)
    (hc : Course start turns s) : s.hub.Orderly := by
  obtain ⟨hnamed, hfiled⟩ := hc.filed h
  refine ⟨hnamed, hfiled, (hc.soleOwner h).1, ?_⟩
  obtain ⟨l, hl⟩ := hc.chronicle h
  have hnew : start.hub.records.size = 0 := by
    obtain ⟨places, hhub, _⟩ := start_ok h
    rw [hhub]
    rfl
  intro x hx
  exact (hl.accounted (filed_start h) hnew).isOrphaned_published hx

/-- After a pass whose commands have all been confirmed while nothing else happened, from a state
where no key is exhausted: nothing is left to do unless a held resource was claimed for another
place. Such a resource is free behind the pass. The next pass commands such resources only, each to
be acquired for its holder, and where its commands are confirmed as well, nothing is left to do. -/
theorem Course.steady_iff (h : Station.start settings directory = .ok start)
    (hc : Course start turns s) {ω : Type} (react : Surroundings ω) (around : ω) (c : Clock)
    (hleft : ∀ key, s.hub.retries.isExhausted c.now key = false) {first : Run ω}
    (hfirst : s.operate react around c.last (.synchronize c.readings) = first)
    (hobeyed : s.hub.Obeyed first.attempts) :
    (first.hub.Steady ↔ ∀ path name, ¬ s.hub.Misclaimed path name) ∧
      (∀ x ∈ s.hub.published, ∀ name, s.hub.Misclaimed x.path name →
        x ∈ first.hub.published ∧ first.hub.claimOf x = .free) ∧
      ∀ {ω' : Type} (react' : Surroundings ω') (around' : ω') (c' : Clock) {second : Run ω'},
        { s with hub := first.hub }.operate react' around' c'.last (.synchronize c'.readings) =
            second →
          (∀ a ∈ second.attempts, ∃ name, a.place = some name ∧
            s.hub.Misclaimed a.handle.path name) ∧
          (first.hub.Obeyed second.attempts → second.hub.Steady) := by
  subst hfirst
  have hfirst := hc.step (.operate react around c.last (.synchronize c.readings))
  obtain ⟨hcorrected, hspare⟩ := Run.corrected_synchronize (hc.orderly h) hleft hobeyed
  refine ⟨Run.steady_confirmed_iff (hc.orderly h) (hfirst.orderly h) hcorrected hspare,
    fun x hx name hmis => hcorrected.free_of_misclaimed (hc.orderly h) hx hmis, ?_⟩
  intro ω' react' around' c' second hsecond
  have hlast := hfirst.step (.operate react' around' c'.last (.synchronize c'.readings))
  rw [hsecond] at hlast
  exact Run.steady_next (hc.orderly h) (hfirst.orderly h) hcorrected hspare hsecond
    (hlast.orderly h)

/-! ## Restart of an exporter -/

/-- The only command of a pass, if it is confirmed behind the report of the new holder. -/
theorem obeyed_of_reported {hub : Hub} {attempts : List Attempt}
    (hone : attempts.map Attempt.outcome = [.done])
    (hreported : ∀ a ∈ attempts, a.hub.published = hub.published ∧ a.hub.records =
      (hub.modifyRecord a.handle (fun r => { r with acquired := a.place })).records) :
    hub.Obeyed attempts := by
  obtain ⟨a, rfl, hdone⟩ := List.map_eq_singleton_iff.mp hone
  obtain ⟨hpublished, hrecords⟩ := hreported a (List.mem_singleton_self a)
  exact ⟨hdone, Hub.undisturbed_of_reported hpublished hrecords, trivial⟩

/-- Behind the scenes of the small laboratory the exporter restarts. -/
def restartScenes : List Scene :=
  labScenes ++
    [⟨8, .event (.exporterLeaves 0), []⟩,
     ⟨8, .event (.exporterEnds 0), []⟩,
     ⟨9, .event .exporterOpens, []⟩,
     ⟨9, .event (.exporterSends 1 (.startup "lab" "1")), []⟩,
     ⟨9, .event (.exporterSends 1 (labReport "")), []⟩]

/-- The small laboratory behind the restart. -/
def restarted : Station := (empty.play restartScenes).2

/-- The pass that follows the restart: the exporter obeys. -/
def repair : Run (List (List Event)) :=
  restarted.operate scripted
    [[.exporterTakes 1, .exporterTakes 1, .exporterSends 1 (labReport "board"),
      .exporterSends 1 (.response Answer.done)]] 10 (.synchronize [10, 10, 10])

/-- The board gets the relay back at once. -/
theorem steady_iff_restart :
    repair.attempts.map (fun a => (a.handle.path, a.place)) =
        [(⟨"lab", "rack", "PowerPort", "relay"⟩, some "board")] ∧
      repair.hub.Steady := by
  have hstart : Station.start ⟨1000, 1000⟩ none = .ok empty := rfl
  have hspare : restarted.hub.retries.Spare := RetryBudget.spare_of_empty (by decide +kernel)
  have hobeyed : restarted.hub.Obeyed repair.attempts :=
    obeyed_of_reported (by decide +kernel) (by decide +kernel)
  have hfree : ∀ x ∈ restarted.hub.published, restarted.hub.claimOf x = .free := by
    decide +kernel
  have hnone : ∀ path name, ¬ restarted.hub.Misclaimed path name := by
    rintro path name ⟨_, x, hx, _, q, hclaim, _⟩
    rw [hfree x hx] at hclaim
    cases hclaim
  have hboth := Course.steady_iff hstart (course_play empty restartScenes) scripted _
    ⟨[10, 10, 10], 10⟩ (hspare.isExhausted 10)
    (rfl : restarted.operate scripted _ 10 (.synchronize [10, 10, 10]) = repair) hobeyed
  exact ⟨by decide +kernel, hboth.1.mpr hnone⟩

/-! ## A claim for another place -/

/-- Behind the scenes of the small laboratory the exporter reports the relay as held by a place
that does not exist. -/
def misclaimedScenes : List Scene :=
  labScenes ++ [⟨8, .event (.exporterSends 0 (labReport "attic")), []⟩]

/-- The small laboratory with the misclaimed relay. -/
def misclaimed : Station := (empty.play misclaimedScenes).2

/-- The pass that releases the relay: the exporter obeys. -/
def recovery : Run (List (List Event)) :=
  misclaimed.operate scripted
    [[.exporterTakes 0, .exporterSends 0 (labReport ""),
      .exporterSends 0 (.response Answer.done)]] 9 (.synchronize [9, 9, 9])

/-- One pass is not enough: the relay is released, and the next pass acquires it. -/
theorem misclaimed_relay :
    Course empty (empty.play misclaimedScenes).1 misclaimed ∧
      (∀ key, misclaimed.hub.retries.isExhausted 9 key = false) ∧
      misclaimed.hub.Obeyed recovery.attempts ∧
      ∃ report next, (Run.start recovery.hub [[.exporterTakes 0,
          .exporterSends 0 (labReport "board"),
          .exporterSends 0 (.response Answer.done)]]).synchronize scripted ⟨[9, 9, 9], 9⟩ =
            (report, next) ∧
        next.attempts.map (fun a => (a.handle.path, a.place)) =
          [(⟨"lab", "rack", "PowerPort", "relay"⟩, some "board")] ∧
        report = { SyncReport.nothing with acquired := 1 } ∧ ¬ recovery.hub.Steady := by
  have hspare : misclaimed.hub.retries.Spare := RetryBudget.spare_of_empty (by decide +kernel)
  have hobeyed : misclaimed.hub.Obeyed recovery.attempts :=
    obeyed_of_reported (by decide +kernel) (by decide +kernel)
  refine ⟨course_play empty misclaimedScenes, hspare.isExhausted 9, hobeyed, _, _, rfl,
    by decide +kernel, by decide +kernel, ?_⟩
  intro hsteady
  have hquiet := hsteady scripted [] ⟨[], 9⟩
  have hreport : ((Run.start recovery.hub []).synchronize scripted ⟨[], 9⟩).1 ≠
      SyncReport.nothing := by
    decide +kernel
  exact hreport (congrArg Prod.fst hquiet)

end Station

end BoardFarm
