import BoardFarm.Proofs.Convergence

/-!
# Reconciliation keeps to what is owned

A pass decides on its commands by what the exporters report and the places hold when it begins,
and carries them out while reports, answers and the ends of streams come in. Whatever comes in,
no path is commanded twice, each command is one that the first look calls for, and nobody gains or
loses a place or a resource: at most, a held handle gives way to another one of its path.

* `RetryBudget.Rations`: the planned commands that a pass tries, by the retries that are left.
* `Hub.KeepsOwners`: places and reservations behind a pass.
* `Run.synchronize_rations`: both hold of every pass.
* `Station.Course.synchronize_scope`: what a pass commands, and what it leaves alone.
-/

namespace BoardFarm

/-! ## Rations -/

namespace RetryBudget

/-- The budget behind the outcome of a command for a key. -/
def note (b : RetryBudget) (now : Nat) (key : String) : Outcome → RetryBudget
  | .done => b.clear key
  | .failed _ => (b.fail now key).2

/-- Planned commands are gone through from a reading of the clock and a budget. The retries of each
path are looked at in turn. A path without retries is skipped, any other one is tried once, and the
outcome is noted before the next. -/
inductive Rations (published : SortedMap ResourcePath Handle) : Clock → RetryBudget →
    List (ResourcePath × Option String) → List Attempt → Clock → RetryBudget → Prop
  | nil (c : Clock) (b : RetryBudget) : Rations published c b [] [] c b
  | skip {c c' : Clock} {b b' : RetryBudget} {path : ResourcePath} {place : Option String}
      {rest : List (ResourcePath × Option String)} {l : List Attempt}
      (hspent : b.isExhausted c.next.now path.text = true)
      (hrest : Rations published c.next b rest l c' b') :
      Rations published c b ((path, place) :: rest) l c' b'
  | tried {c c' : Clock} {b b' : RetryBudget} {a : Attempt}
      {rest : List (ResourcePath × Option String)} {l : List Attempt}
      (hx : published.get? a.handle.path = some a.handle)
      (hleft : b.isExhausted c.next.now a.handle.path.text = false)
      (hrest : Rations published c.next.next
        (b.note c.next.next.now a.handle.path.text a.outcome) rest l c' b') :
      Rations published c b ((a.handle.path, a.place) :: rest) (a :: l) c' b'

variable {published : SortedMap ResourcePath Handle} {c c₁ c' : Clock} {b b₁ b' : RetryBudget}
  {plan plan' : List (ResourcePath × Option String)} {l l' : List Attempt}

theorem Rations.append (h : Rations published c b plan l c₁ b₁)
    (h' : Rations published c₁ b₁ plan' l' c' b') :
    Rations published c b (plan ++ plan') (l ++ l') c' b' := by
  induction h with
  | nil => exact h'
  | skip hspent _ ih => exact .skip hspent (ih h')
  | tried hx hleft _ ih => exact .tried hx hleft (ih h')

theorem Rations.sublist (h : Rations published c b plan l c' b') :
    (l.map (fun a => (a.handle.path, a.place))).Sublist plan := by
  induction h with
  | nil => exact .slnil
  | skip _ _ ih => exact ih.cons _
  | tried _ _ _ ih => exact ih.cons_cons _

theorem Rations.is_published (h : Rations published c b plan l c' b') :
    ∀ a ∈ l, published.get? a.handle.path = some a.handle := by
  induction h with
  | nil => exact fun a ha => by cases ha
  | skip _ _ ih => exact ih
  | tried hx _ _ ih =>
    intro a ha
    rcases List.mem_cons.mp ha with rfl | hrest
    · exact hx
    · exact ih a hrest

end RetryBudget

/-! ## Owners -/

/-- A place may come to hold other handles, of the same paths in the same order, at another time
of change. -/
def Place.Rehandled (p p' : Place) : Prop :=
  ∃ held changed, p' = { p with held := held, changed := changed } ∧
    held.map Handle.path = p.held.map Handle.path

theorem Place.Rehandled.refl (p : Place) : p.Rehandled p := ⟨p.held, p.changed, rfl, rfl⟩

theorem Place.Rehandled.trans {p p₁ p' : Place} (h : p.Rehandled p₁) (h' : p₁.Rehandled p') :
    p.Rehandled p' := by
  obtain ⟨held, changed, rfl, hpaths⟩ := h
  obtain ⟨held', changed', rfl, hpaths'⟩ := h'
  exact ⟨held', changed', rfl, hpaths'.trans hpaths⟩

namespace Hub

/-- The reservations and the places are the same, but for the handles that places hold. -/
structure KeepsOwners (hub hub' : Hub) : Prop where
  reservations : hub'.reservations = hub.reservations
  kept : ∀ {k : String} {p : Place}, hub.places.get? k = some p →
    ∃ p', hub'.places.get? k = some p' ∧ p.Rehandled p'
  old : ∀ {k : String} {p' : Place}, hub'.places.get? k = some p' →
    ∃ p, hub.places.get? k = some p

theorem keepsOwners_of_same {hub hub' : Hub} (hplaces : hub'.places = hub.places)
    (hreservations : hub'.reservations = hub.reservations) : KeepsOwners hub hub' := by
  refine ⟨hreservations, ?_, ?_⟩
  · intro k p hp
    exact ⟨p, hplaces ▸ hp, .refl p⟩
  · intro k p hp
    exact ⟨p, hplaces ▸ hp⟩

theorem KeepsOwners.trans {hub hub₁ hub' : Hub} (h : KeepsOwners hub hub₁)
    (h' : KeepsOwners hub₁ hub') : KeepsOwners hub hub' := by
  refine ⟨h'.reservations.trans h.reservations, ?_, ?_⟩
  · intro k p hp
    obtain ⟨p₁, hp₁, hr⟩ := h.kept hp
    obtain ⟨p', hp', hr'⟩ := h'.kept hp₁
    exact ⟨p', hp', hr.trans hr'⟩
  · intro k p' hp'
    obtain ⟨p₁, hp₁⟩ := h'.old hp'
    exact h.old hp₁

theorem keepsOwners_replaceHeld {hub hub' : Hub} (hn : hub.Named) {now : Nat} {name : String}
    {x : Handle} (hr : hub.replaceHeld now name x = some hub') : KeepsOwners hub hub' := by
  obtain ⟨p, old, hp, _, rfl⟩ := replaceHeld_eq_some hr
  have hrehandled : p.Rehandled ({ p with held := replaceHandle x p.held }.touch now) :=
    ⟨_, _, rfl, map_replaceHandle x p.held⟩
  have hget : ∀ k, (hub.storePlace
      ({ p with held := replaceHandle x p.held }.touch now)).places.get? k =
        if name = k then some ({ p with held := replaceHandle x p.held }.touch now)
        else hub.places.get? k := by
    intro k
    rw [← hn name p hp]
    exact SortedMap.get?_insert ..
  refine ⟨rfl, ?_, ?_⟩
  · intro k q hq
    rw [hget]
    split
    · rename_i hk
      subst hk
      rw [hp] at hq
      cases hq
      exact ⟨_, rfl, hrehandled⟩
    · exact ⟨q, hq, .refl q⟩
  · intro k q hq
    rw [hget] at hq
    split at hq
    · rename_i hk
      exact ⟨p, hk ▸ hp⟩
    · exact ⟨q, hq⟩

theorem noteOutcome_eq (hub : Hub) (now : Nat) (path : ResourcePath) (o : Outcome) :
    hub.noteOutcome now path o = { hub with retries := hub.retries.note now path.text o } := by
  cases o <;> rfl

end Hub

namespace SyncState

variable {ω α : Type} {react : Surroundings ω} {published : SortedMap ResourcePath Handle}

/-- The commands of a pass are tried as far as there are retries, and change no place and no
reservation. -/
theorem Issues.rations {f : SyncState ω → α → SyncState ω} {path : α → ResourcePath}
    {place : α → Option String} (hf : Issues react published f path place) {l : List α}
    (hlisted : ∀ e ∈ l, ∃ x, published.get? (path e) = some x ∧ x.path = path e)
    (s : SyncState ω) :
    ∃ tail, (l.foldl f s).run.attempts = s.run.attempts ++ tail ∧
      s.run.hub.retries.Rations published s.clock (l.map (fun e => (path e, place e))) tail
        (l.foldl f s).clock (l.foldl f s).run.hub.retries ∧
      (l.foldl f s).run.hub.places = s.run.hub.places ∧
      (l.foldl f s).run.hub.reservations = s.run.hub.reservations := by
  induction l generalizing s with
  | nil => exact ⟨[], by simp, .nil _ _, rfl, rfl⟩
  | cons e rest ih =>
    obtain ⟨x, hx, hpath⟩ := hlisted e List.mem_cons_self
    obtain ⟨tail, htail, hrations, hplaces, hreservations⟩ :=
      ih (fun e' he' => hlisted e' (List.mem_cons_of_mem _ he')) (f s e)
    rw [List.foldl_cons, List.map_cons]
    cases hleft : s.run.hub.retries.isExhausted s.clock.next.now (path e).text with
    | true =>
      obtain ⟨hskip, hclock⟩ := command_skipped react s (place e) hx hleft
      rw [← hf.run] at hskip
      rw [← hf.clock] at hclock
      rw [hskip] at htail hrations hplaces hreservations
      rw [hclock] at hrations
      exact ⟨tail, htail, .skip hleft hrations, hplaces, hreservations⟩
    | false =>
      obtain ⟨a, rfl, hplace, hexchange, _, hattempts, _, hclock, hhub⟩ :=
        command_spec react s (place e) hx hleft
      have hquiet := hexchange.quiet.trans (Hub.quiet_settled false a)
      rw [← hf.run] at hattempts hhub
      rw [← hf.clock] at hclock
      rw [hclock] at hrations
      rw [hhub, Hub.noteOutcome_eq] at hrations hplaces hreservations
      rw [hattempts, List.append_assoc] at htail
      refine ⟨[a] ++ tail, htail, ?_, hplaces.trans hquiet.places,
        hreservations.trans hquiet.reservations⟩
      rw [← hpath] at hx hleft hrations
      rw [← hquiet.retries] at hleft ⊢
      rw [← hpath, ← hplace]
      exact .tried hx hleft hrations

theorem keepsOwners_foldl_replaceOrphan (now : Nat)
    (published : SortedMap ResourcePath Handle) (l : List (ResourcePath × String))
    {s : SyncState ω} (hn : s.run.hub.Named) :
    s.run.hub.KeepsOwners (l.foldl (fun s e => s.replaceOrphan published now e) s).run.hub ∧
      (l.foldl (fun s e => s.replaceOrphan published now e) s).run.hub.retries =
        s.run.hub.retries := by
  induction l generalizing s with
  | nil => exact ⟨Hub.keepsOwners_of_same rfl rfl, rfl⟩
  | cons e rest ih =>
    rw [List.foldl_cons]
    have hsame : s.replaceOrphan published now e = s ∨ ∃ x hub',
        s.run.hub.replaceHeld now e.2 x = some hub' ∧
          (s.replaceOrphan published now e).run.hub = hub' := by
      unfold replaceOrphan
      split
      · exact Or.inl rfl
      · split
        · exact Or.inl rfl
        · split
          · exact Or.inl rfl
          · rename_i x _ _ hub' hr
            exact Or.inr ⟨x, hub', hr, rfl⟩
    rcases hsame with he | ⟨x, hub', hr, he⟩
    · rw [he]
      exact ih hn
    · have hretries : hub'.retries = s.run.hub.retries := by
        obtain ⟨_, _, _, _, rfl⟩ := Hub.replaceHeld_eq_some hr
        rfl
      have hn' : hub'.Named := by
        obtain ⟨p, _, _, _, rfl⟩ := Hub.replaceHeld_eq_some hr
        exact Hub.Write.named (.store _) hn
      have hstep := Hub.keepsOwners_replaceHeld hn hr
      rw [← he] at hstep hretries hn'
      obtain ⟨hrest, hrest'⟩ := ih hn'
      exact ⟨hstep.trans hrest, hrest'.trans hretries⟩

end SyncState

/-! ## Passes -/

namespace Hub

/-- No path is planned twice. -/
theorem Orderly.nodup_planned {hub : Hub} (h : hub.Orderly) :
    ((planned hub.driftPlan).map Prod.fst).Nodup := by
  unfold planned
  rw [List.map_append, List.nodup_append]
  refine ⟨?_, ?_, ?_⟩
  · rw [List.map_map]
    exact (List.map_id' _).symm ▸ DriftPlan.nodup_release
  · rw [List.map_map]
    exact DriftPlan.nodup_acquire h.nodup_holdings
  · rintro path hrelease _ hacquire rfl
    exact Run.release_apart_acquire hub path hrelease hacquire

/-- What calls for a command to release a resource, or to acquire it for a place. -/
theorem Orderly.mem_planned_iff {hub : Hub} (h : hub.Orderly) {x : Handle}
    (hx : x ∈ hub.published) {place : Option String} :
    (x.path, place) ∈ planned hub.driftPlan ↔
      match place with
      | none => ∃ q, hub.claimOf x = .place q ∧ ¬ hub.Keeps q x.path
      | some name => hub.claimOf x = .free ∧ hub.Keeps name x.path := by
  have hone : ∀ y ∈ hub.published, y.path = x.path → y = x := fun y hy he =>
    List.inj_on_of_nodup_map h.filed.nodup_published hy hx he
  unfold planned
  rw [List.mem_append, List.mem_map, List.mem_map]
  cases place with
  | none =>
    have hrelease : (x.path ∈ hub.driftPlan.release) ↔
        ∃ q, hub.claimOf x = .place q ∧ ¬ hub.Keeps q x.path := by
      rw [h.mem_release_iff]
      constructor
      · rintro ⟨y, hy, hpath, hq⟩
        exact hone y hy hpath ▸ hq
      · exact fun hq => ⟨x, hx, rfl, hq⟩
    simp [← hrelease]
  | some name =>
    have hacquire : ((x.path, name) ∈ hub.driftPlan.acquire) ↔
        hub.claimOf x = .free ∧ hub.Keeps name x.path := by
      rw [h.mem_acquire_iff]
      constructor
      · rintro ⟨⟨y, hy, hpath, hfree⟩, hkeeps⟩
        exact ⟨hone y hy hpath ▸ hfree, hkeeps⟩
      · exact fun ⟨hfree, hkeeps⟩ => ⟨⟨x, hx, rfl, hfree⟩, hkeeps⟩
    simp [← hacquire]

end Hub

namespace Run

variable {ω : Type}

/-- A pass rations the commands of its plan, and keeps the owners. -/
theorem synchronize_rations (react : Surroundings ω) (around : ω) (c : Clock) {hub : Hub}
    (h : hub.Orderly) {r : Run ω} (hr : ((start hub around).synchronize react c).2 = r) :
    (∃ c', (hub.retries.prune c.now).Rations hub.publishedMap c (Hub.planned hub.driftPlan)
      r.attempts c' r.hub.retries) ∧ hub.KeepsOwners r.hub := by
  obtain ⟨s₀, s₁, s₂, s₃, hhub, hnone, hclock, hs₁, hs₂, hs₃, hrun, hlast⟩ :=
    synchronize_parts react around c hub
  rw [hr] at hrun
  have hreleases : SyncState.Issues react hub.publishedMap
      (fun s path => s.releaseStray react hub.publishedMap path) (fun path => path)
      (fun _ => none) := SyncState.issues_releaseStray
  have hacquires : SyncState.Issues react hub.publishedMap
      (fun s e => s.acquireLost react hub.publishedMap e) Prod.fst (fun e => some e.2) :=
    SyncState.issues_acquireLost
  obtain ⟨tail₁, hattempts₁, hrations₁, hplaces₁, hreservations₁⟩ := hreleases.rations
    (l := hub.driftPlan.release) (fun path hmem => by
      obtain ⟨x, hx, hpath, _⟩ := h.mem_release_iff.mp hmem
      exact ⟨x, h.filed.get?_publishedMap.mpr ⟨hx, hpath⟩, hpath⟩) s₀
  obtain ⟨tail₂, hattempts₂, hrations₂, hplaces₂, hreservations₂⟩ := hacquires.rations
    (l := hub.driftPlan.acquire) (fun e hmem => by
      obtain ⟨⟨x, hx, hpath, _⟩, _⟩ := h.mem_acquire_iff.mp hmem
      exact ⟨x, h.filed.get?_publishedMap.mpr ⟨hx, hpath⟩, hpath⟩) { s₁ with unresolved := [] }
  rw [hs₁] at hattempts₁ hrations₁ hplaces₁ hreservations₁
  rw [hs₂] at hattempts₂ hrations₂ hplaces₂ hreservations₂
  have hplaces : s₂.run.hub.places = hub.places := by
    rw [hplaces₂, hplaces₁, hhub]
  have hreservations : s₂.run.hub.reservations = hub.reservations := by
    rw [hreservations₂, hreservations₁, hhub]
  obtain ⟨howners, hretries⟩ := SyncState.keepsOwners_foldl_replaceOrphan c.last hub.publishedMap
    hub.driftPlan.replace (h.named.of_places hplaces)
  rw [hs₃] at howners hretries
  have hall := hrations₁.append hrations₂
  rw [hclock, hhub] at hall
  rw [hnone, List.nil_append] at hattempts₁
  rw [hrun, hlast, hretries, hattempts₂, hattempts₁]
  exact ⟨⟨_, hall⟩, (Hub.keepsOwners_of_same hplaces hreservations).trans howners⟩

end Run

namespace Station

variable {settings : HubSettings} {directory : Option StateDirectory} {start s : Station}
  {turns : List Turn}

/-- Whatever comes in while a pass waits: the reservations are the same, and so is every place but
for handles that give way to others of the same paths. No path is commanded twice. What is commanded
was published when the pass began, and was not broken then. It was claimed for a place that does not
hold it, and is released; or it was free, and is acquired for the only place that holds it. -/
theorem Course.synchronize_scope (h : Station.start settings directory = .ok start)
    (hc : Course start turns s) {ω : Type} (react : Surroundings ω) (around : ω) (now : Nat)
    (readings : List Nat) {r : Run ω}
    (hr : s.operate react around now (.synchronize readings) = r) :
    s.hub.KeepsOwners r.hub ∧ (r.attempts.map (fun a => a.handle.path)).Nodup ∧
      ∀ a ∈ r.attempts, a.handle ∈ s.hub.published ∧ s.hub.claimOf a.handle ≠ .broken ∧
        match a.place with
        | none => ∃ q, s.hub.claimOf a.handle = .place q ∧ ¬ s.hub.Keeps q a.handle.path
        | some name => s.hub.claimOf a.handle = .free ∧
            ∀ other, s.hub.Keeps other a.handle.path ↔ other = name := by
  have horderly := hc.orderly h
  obtain ⟨⟨c', hrations⟩, howners⟩ :=
    Run.synchronize_rations react around ⟨readings, now⟩ horderly hr
  have hsub := hrations.sublist
  refine ⟨howners, ?_, ?_⟩
  · have hnodup := horderly.nodup_planned.sublist (hsub.map Prod.fst)
    rw [List.map_map] at hnodup
    exact hnodup
  · intro a ha
    have hx := (horderly.filed.get?_publishedMap.mp (hrations.is_published a ha)).1
    have hplanned := (horderly.mem_planned_iff hx).mp
      (hsub.subset (List.mem_map_of_mem (f := fun a => (a.handle.path, a.place)) ha))
    refine ⟨hx, ?_⟩
    cases hplace : a.place with
    | none =>
      rw [hplace] at hplanned
      obtain ⟨q, hclaim, hnot⟩ := hplanned
      exact ⟨by simp [hclaim], q, hclaim, hnot⟩
    | some name =>
      rw [hplace] at hplanned
      obtain ⟨hfree, hkeeps⟩ := hplanned
      refine ⟨by simp [hfree], hfree, fun other => ?_⟩
      constructor
      · exact fun hk => horderly.keeps_unique hk hkeeps
      · rintro rfl
        exact hkeeps

/-- Behind the restart of its exporter the relay is acquired again for the board, which then holds
another handle of it. -/
theorem synchronize_scope_restart :
    restarted.hub.KeepsOwners repair.hub ∧
      (repair.hub.places.get? "board").map Place.held ≠
        (restarted.hub.places.get? "board").map Place.held ∧
      repair.attempts.map (fun a => (a.handle.path, a.place)) =
        [(⟨"lab", "rack", "PowerPort", "relay"⟩, some "board")] := by
  have hstart : Station.start ⟨1000, 1000⟩ none = .ok empty := rfl
  have hscope := Course.synchronize_scope hstart (course_play empty restartScenes) scripted _ 10
    [10, 10, 10] (rfl : restarted.operate scripted _ 10 (.synchronize [10, 10, 10]) = repair)
  exact ⟨hscope.1, by decide +kernel, by decide +kernel⟩

end Station

end BoardFarm
