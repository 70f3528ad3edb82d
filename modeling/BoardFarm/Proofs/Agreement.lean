import BoardFarm.Proofs.Bookings
import BoardFarm.Proofs.NamesApart

/-!
# Exporters and places agree

As long as exporters answer in time and stay, and no acquired place is deleted, the hub and its
exporters agree between operations: what is published of a resource is what its exporter reports,
and the exporter has it held for a place just if the place holds it.

* `Agreed`: the invariant, for some ledger.
* `Agreed.spares`, `Agreed.book`, `Agreed.clear`: what operations do to it.
* `Agreed.perform`: every operation keeps it, if its commands do not expire.
-/

namespace BoardFarm

/-! ## The invariant -/

/-- Nothing is on its way. The ledger is that of the places, and all handles that they hold, or that
wait to be attached, are published. -/
structure Agreed (ledger : Ledger) (s : Site) : Prop where
  settled : Settled ledger s
  booked : ∀ path name, ledger path = some name ↔ s.hub.Keeps name path
  held : ∀ ⦃name : String⦄ ⦃l : List Handle⦄, s.hub.held? name = some l →
    ∀ x ∈ l, x ∈ s.hub.published
  queued : ∀ ⦃id : Nat⦄ ⦃x : Handle⦄, (id, FollowUp.added x) ∈ s.hub.followUps →
    x ∈ s.hub.published
  called : ∀ ⦃name : String⦄ ⦃l : List Handle⦄, s.hub.held? name = some l → name ≠ ""

variable {ledger ledger' : Ledger} {s s₁ : Site} {hub' : Hub} {name : String}
  {handles l : List Handle}

/-- What has happened while an operation waited, and what it writes at last. -/
theorem Agreed.rewrite (h : Agreed ledger s) (hsettled : Settled ledger' s₁)
    (hgrows : s.hub.Grows s₁.hub) (hlinks : hub'.links = s₁.hub.links)
    (hrecords : hub'.records = s₁.hub.records)
    (hfollowUps : ∀ w ∈ hub'.followUps, w ∈ s₁.hub.followUps)
    (hbooked : ∀ path name, ledger' path = some name ↔ hub'.Keeps name path)
    (hheld : ∀ name l, hub'.held? name = some l → name ≠ "" ∧ ∀ x ∈ l, x ∈ s.hub.published) :
    Agreed ledger' ⟨hub', s₁.fleet⟩ := by
  have hpublished : ∀ x ∈ s₁.hub.published, x ∈ hub'.published := by
    intro x hx
    rw [Hub.published_of_links hlinks]
    exact hx
  refine ⟨fun o => (hsettled o).of_same hlinks hrecords rfl, hbooked, ?_, ?_,
    fun name l hl => (hheld name l hl).1⟩
  · intro name l hl x hx
    exact hpublished x (hgrows.published x ((hheld name l hl).2 x hx))
  · intro id x hx
    rcases hgrows.added (hfollowUps _ hx) with hold | hnew
    · exact hpublished x (hgrows.published x (h.queued hold))
    · exact hpublished x hnew

theorem Agreed.spares (h : Agreed ledger s) (hs : s.hub.Spares hub') :
    Agreed ledger ⟨hub', s.fleet⟩ := by
  refine h.rewrite h.settled (.refl s.hub) hs.links hs.records hs.followUps ?_ ?_
  · intro path name
    rw [h.booked, Hub.keeps_iff_held?, Hub.keeps_iff_held?]
    constructor
    · rintro ⟨l, hl, hmem⟩
      rcases hs.kept hl with rfl | hl'
      · cases hmem
      · exact ⟨l, hl', hmem⟩
    · rintro ⟨l, hl, hmem⟩
      rcases hs.old hl with ⟨rfl, _⟩ | hl'
      · cases hmem
      · exact ⟨l, hl', hmem⟩
  · intro name l hl
    rcases hs.old hl with ⟨rfl, hname⟩ | hl'
    · exact ⟨hname, fun x hx => by cases hx⟩
    · exact ⟨h.called hl', h.held hl'⟩

/-- Acquired resources are entered in a place. -/
theorem Agreed.book (h : Agreed ledger s)
    (hsettled : Settled (ledger.assign (handles.map Handle.path) (some name)) s₁)
    (hgrows : s.hub.Grows s₁.hub) (hfree : ∀ x ∈ handles, ledger x.path = none)
    (hpublished : ∀ x ∈ handles, x ∈ s.hub.published) (hl : s.hub.held? name = some l)
    (hw : Hub.Writes s₁.hub hub')
    (hheld : ∀ k, hub'.held? k = if name = k then some (l ++ handles) else s₁.hub.held? k) :
    Agreed (ledger.assign (handles.map Handle.path) (some name)) ⟨hub', s₁.fleet⟩ := by
  have hsame := Hub.held?_of_places hgrows.places
  obtain ⟨hlinks, hrecords⟩ := hw.aside
  refine h.rewrite hsettled hgrows hlinks hrecords (fun w hw' => hw.followUps ▸ hw') ?_ ?_
  · intro path k
    have hbooked := h.booked path k
    rw [Hub.keeps_iff_held?] at hbooked ⊢
    rw [hheld, hsame]
    unfold Ledger.assign
    by_cases hk : name = k
    · subst hk
      rw [if_pos rfl]
      rw [hl] at hbooked
      simp only [Option.some.injEq, exists_eq_left', List.map_append, List.mem_append] at hbooked ⊢
      split
      · rename_i hmem
        exact ⟨fun _ => Or.inr hmem, fun _ => rfl⟩
      · rename_i hmem
        rw [hbooked]
        exact ⟨Or.inl, fun hor => hor.resolve_right hmem⟩
    · rw [if_neg hk]
      split
      · -- the resource was held by nobody
        rename_i hmem
        obtain ⟨x, hx, rfl⟩ := List.mem_map.mp hmem
        rw [hfree x hx] at hbooked
        rw [← hbooked]
        constructor
        · intro he
          exact absurd (Option.some.inj he) hk
        · intro he
          cases he
      · exact hbooked
  · intro k l' hl'
    rw [hheld, hsame] at hl'
    split at hl'
    · rename_i hk
      cases hl'
      refine ⟨hk ▸ h.called hl, ?_⟩
      intro x hx
      rcases List.mem_append.mp hx with hold | hnew
      · exact h.held hl x hold
      · exact hpublished x hnew
    · exact ⟨h.called hl', h.held hl'⟩

/-- A place is emptied whose resources have been released. -/
theorem Agreed.clear (h : Agreed ledger s) (hl : s.hub.held? name = some l)
    (hsettled : Settled (ledger.assign (l.map Handle.path) none) s₁) (hgrows : s.hub.Grows s₁.hub)
    (hw : Hub.Writes s₁.hub hub')
    (hheld : ∀ k, hub'.held? k = if name = k then some [] else s₁.hub.held? k) :
    Agreed (ledger.assign (l.map Handle.path) none) ⟨hub', s₁.fleet⟩ := by
  have hsame := Hub.held?_of_places hgrows.places
  obtain ⟨hlinks, hrecords⟩ := hw.aside
  have hname : ∀ path, path ∈ l.map Handle.path ↔ ledger path = some name := by
    intro path
    rw [h.booked, Hub.keeps_iff_held?, hl]
    simp only [Option.some.injEq, exists_eq_left']
  refine h.rewrite hsettled hgrows hlinks hrecords (fun w hw' => hw.followUps ▸ hw') ?_ ?_
  · intro path k
    have hbooked := h.booked path k
    rw [Hub.keeps_iff_held?] at hbooked ⊢
    rw [hheld, hsame]
    unfold Ledger.assign
    by_cases hk : name = k
    · subst hk
      rw [if_pos rfl]
      constructor
      · intro he
        split at he
        · cases he
        · rename_i hmem
          exact absurd ((hname path).mpr he) hmem
      · rintro ⟨l', hl', hmem⟩
        cases hl'
        cases hmem
    · rw [if_neg hk]
      split
      · rename_i hmem
        rw [(hname path).mp hmem] at hbooked
        rw [← hbooked]
        constructor
        · intro he
          cases he
        · intro he
          exact absurd (Option.some.inj he) hk
      · exact hbooked
  · intro k l' hl'
    rw [hheld, hsame] at hl'
    split at hl'
    · rename_i hk
      cases hl'
      exact ⟨hk ▸ h.called hl, fun x hx => by cases hx⟩
    · exact ⟨h.called hl', h.held hl'⟩

/-! ## Operations -/

namespace Run

/-- Only the hub of a run has changed, and neither exporters nor holdings are concerned. -/
def Sparing {ω : Type} (r r' : Run ω) : Prop :=
  ∃ hub', r' = { r with hub := hub' } ∧ r.hub.Spares hub'

variable {ω : Type} {r : Run ω}

theorem Sparing.refl (r : Run ω) : Sparing r r := ⟨r.hub, rfl, .refl r.hub⟩

theorem change_sparing {e : Except RequestError Hub}
    (h : ∀ hub', e = .ok hub' → r.hub.Spares hub') : Sparing r (r.change e).2 := by
  cases e with
  | error cause => exact .refl r
  | ok hub' => exact ⟨hub', rfl, h hub' rfl⟩

theorem answer_sparing {e : Except RequestError (Reservation × Hub)}
    (h : ∀ reservation hub', e = .ok (reservation, hub') → r.hub.Spares hub') :
    Sparing r (r.answer e).2 := by
  cases e with
  | error cause => exact .refl r
  | ok answer => exact ⟨answer.2, rfl, h answer.1 answer.2 rfl⟩

end Run

section Operations

variable {σ : Type} {choose : Strategy σ} {r r' : Run (Fleet × σ)} {now : Nat}

theorem Agreed.sparing (h : Agreed ledger r.site) (hs : Run.Sparing r r') :
    ∃ ledger', Agreed ledger' r'.site := by
  obtain ⟨hub', rfl, hspares⟩ := hs
  exact ⟨ledger, h.spares hspares⟩

theorem Agreed.withPrincipal (h : Agreed ledger r.site) {address : Option String}
    {serve : String → Except RequestError Reply × Run (Fleet × σ)}
    (hr : (r.withPrincipal address serve).2 = r')
    (hserve : ∀ user, (serve user).2 = r' → ∃ ledger', Agreed ledger' r'.site) :
    ∃ ledger', Agreed ledger' r'.site := by
  unfold Run.withPrincipal at hr
  split at hr
  · subst hr
    exact ⟨ledger, h⟩
  · exact hserve _ hr

/-- A place is acquired. -/
theorem Agreed.acquirePlace (h : Agreed ledger r.site) (ho : r.hub.Orderly) {user : String}
    (hr : (r.acquirePlace (Fleet.accompany choose) now name user).2 = r') (htimely : r'.Timely) :
    ∃ ledger', Agreed ledger' r'.site := by
  unfold Run.acquirePlace at hr
  split at hr
  · subst hr
    exact ⟨ledger, h⟩
  · rename_i p hp
    split at hr
    · subst hr
      exact ⟨ledger, h⟩
    · have hheld := Hub.held?_of_get? hp
      have hpublished : ∀ x ∈ r.hub.claimed p, x ∈ r.hub.published :=
        fun x hx => Run.published_of_mem_claimed hx
      have hdistinct := Run.nodup_claimed ho.filed.nodup_published p
      obtain ⟨result, r₁, hacquire⟩ : ∃ result r₁, r.acquireAll (Fleet.accompany choose) name
          (r.hub.claimed p) = (result, r₁) := ⟨_, _, rfl⟩
      rw [hacquire] at hr
      have htimely₁ : r₁.Timely := by
        cases result <;> subst hr <;> exact htimely
      rcases Run.acquireAll_timely h.settled (h.called hheld) hpublished hdistinct hacquire htimely₁
        with ⟨⟨e, rfl⟩, rfl⟩ | ⟨rfl, hfree, hsettled, hgrows⟩
      · subst hr
        exact ⟨ledger, h⟩
      · subst hr
        have hn₁ : r₁.hub.Named := ho.named.of_places hgrows.places
        have hp₁ : r₁.hub.places.get? name = some p := by
          rw [hgrows.places]
          exact hp
        have hbooked : Agreed (ledger.assign ((r.hub.claimed p).map Handle.path) (some name))
            ⟨r₁.hub.completeAcquisition now name user (r.hub.claimed p), r₁.site.fleet⟩ := by
          obtain ⟨hw, hheld₁⟩ :=
            Hub.completeAcquisition_holdings hn₁ hp₁ now user (r.hub.claimed p)
          exact h.book hsettled hgrows hfree hpublished hheld hw hheld₁
        exact ⟨_, hbooked⟩

/-- A place is released. -/
theorem Agreed.releasePlace (h : Agreed ledger r.site) (ho : r.hub.Orderly) {user : Option String}
    (hr : (r.releasePlace (Fleet.accompany choose) now name user).2 = r') (htimely : r'.Timely) :
    ∃ ledger', Agreed ledger' r'.site := by
  unfold Run.releasePlace at hr
  split at hr
  · subst hr
    exact ⟨ledger, h⟩
  · rename_i p hp
    split at hr
    · subst hr
      exact ⟨ledger, h⟩
    · split at hr
      · subst hr
        exact ⟨ledger, h⟩
      · have hheld := Hub.held?_of_get? hp
        obtain ⟨r₁, hrelease⟩ : ∃ r₁, r.releaseEach (Fleet.accompany choose) p.held = r₁ := ⟨_, rfl⟩
        rw [show Run.releaseEach (Fleet.accompany choose) p.held r = r₁ from hrelease] at hr
        subst hr
        obtain ⟨hsettled, hgrows⟩ :=
          Run.releaseEach_timely h.settled (h.held hheld) hrelease htimely
        have hn₁ : r₁.hub.Named := ho.named.of_places hgrows.places
        have hp₁ : r₁.hub.places.get? name = some p := by
          rw [hgrows.places]
          exact hp
        have hcleared : Agreed (ledger.assign (p.held.map Handle.path) none)
            ⟨r₁.hub.completeRelease now name, r₁.site.fleet⟩ := by
          obtain ⟨hw, hheld₁⟩ := Hub.completeRelease_holdings hn₁ hp₁ now
          exact h.clear hheld hsettled hgrows hw hheld₁
        exact ⟨_, hcleared⟩

/-- A resource that has appeared is attached, if there is a place for it. -/
theorem Agreed.resourceAdded (h : Agreed ledger r.site) (hn : r.hub.Named) {x : Handle}
    (hx : x ∈ r.hub.published) (hr : r.resourceAdded (Fleet.accompany choose) now x = r')
    (htimely : r'.Timely) : ∃ ledger', Agreed ledger' r'.site := by
  have hspares := Hub.spares_addDefaultPlace hn now x.path.group
  have hn₁ : (r.hub.addDefaultPlace now x.path.group).Named :=
    Run.named_addDefaultPlace hn x.path.group
  obtain ⟨r₁, hr₁⟩ : ∃ r₁, r.modify (fun hub => hub.addDefaultPlace now x.path.group) = r₁ :=
    ⟨_, rfl⟩
  have h₁ : Agreed ledger r₁.site := by
    rw [← hr₁]
    exact h.spares hspares
  have hx₁ : x ∈ r₁.hub.published := by
    rw [← hr₁]
    show x ∈ (r.hub.addDefaultPlace now x.path.group).published
    rw [Hub.published_of_links hspares.links]
    exact hx
  replace hn₁ : r₁.hub.Named := by
    rw [← hr₁]
    exact hn₁
  unfold Run.resourceAdded at hr
  rw [hr₁] at hr
  dsimp only at hr
  split at hr
  · subst hr
    exact ⟨ledger, h₁⟩
  · rename_i p htarget
    obtain ⟨hmem, _, _⟩ := Run.attachTarget_spec htarget
    have hp := hn₁.get?_name hmem
    have hheld := Hub.held?_of_get? hp
    have hpublished : ∀ y ∈ [x], y ∈ r₁.hub.published := by
      intro y hy
      rw [List.mem_singleton.mp hy]
      exact hx₁
    obtain ⟨result, r₂, hacquire⟩ : ∃ result r₂, r₁.acquireAll (Fleet.accompany choose) p.name
        [x] = (result, r₂) := ⟨_, _, rfl⟩
    rw [show Run.acquireAll (Fleet.accompany choose) p.name [x] r₁ = (result, r₂) from hacquire]
      at hr
    have htimely₂ : r₂.Timely := by
      cases result <;> subst hr <;> exact htimely
    rcases Run.acquireAll_timely h₁.settled (h₁.called hheld) hpublished (List.nodup_singleton _)
      hacquire htimely₂ with ⟨⟨e, rfl⟩, rfl⟩ | ⟨rfl, hfree, hsettled, hgrows⟩
    · subst hr
      exact ⟨ledger, h₁⟩
    · subst hr
      have hn₂ : r₂.hub.Named := hn₁.of_places hgrows.places
      have hp₂ : r₂.hub.places.get? p.name = some p := by
        rw [hgrows.places]
        exact hp
      have hbooked : Agreed (ledger.assign ([x].map Handle.path) (some p.name))
          ⟨r₂.hub.attach now p.name x, r₂.site.fleet⟩ := by
        obtain ⟨hw, hheld₂⟩ := Hub.attach_holdings hn₂ hp₂ now x
        exact h₁.book hsettled hgrows hfree hpublished hheld hw hheld₂
      exact ⟨_, hbooked⟩

theorem Agreed.nextFollowUp (h : Agreed ledger r.site) (hn : r.hub.Named) {link : Nat}
    (hr : r.nextFollowUp (Fleet.accompany choose) now link = r') (htimely : r'.Timely) :
    ∃ ledger', Agreed ledger' r'.site := by
  unfold Run.nextFollowUp at hr
  split at hr
  · subst hr
    exact ⟨ledger, h⟩
  · rename_i id f hfirst
    have hwork : r.hub.Spares
        { r.hub with followUps := r.hub.followUps.eraseP (fun e => e.1 == link) } :=
      .of_held rfl rfl (fun _ hw => List.mem_of_mem_eraseP hw) (fun _ => rfl)
    have h₁ := h.spares hwork
    unfold Run.followUp at hr
    cases f with
    | added x =>
      have hx : x ∈ r.hub.published := h.queued (List.mem_of_find?_eq_some hfirst)
      have hn₁ : (r.modify (fun hub =>
          { hub with followUps := hub.followUps.eraseP (fun e => e.1 == link) })).hub.Named := hn
      exact Agreed.resourceAdded h₁ hn₁ hx hr htimely
    | removed x =>
      subst hr
      obtain ⟨clients, hclients⟩ := Hub.publishHolders_eq (r.modify (fun hub =>
        { hub with followUps := hub.followUps.eraseP (fun e => e.1 == link) })).hub x
      refine ⟨ledger, h₁.spares ?_⟩
      show Hub.Spares _ (Hub.publishHolders _ x)
      rw [hclients]
      exact .of_held rfl rfl (fun _ hw => hw) (fun _ => rfl)

/-- A pass of reconciliation has nothing to do. -/
theorem Agreed.steady (h : Agreed ledger s) (ho : s.hub.Orderly) : s.hub.Steady := by
  have hclaim : ∀ x ∈ s.hub.published, ∀ q, s.hub.claimOf x = .place q → s.hub.Keeps q x.path := by
    intro x hx q hq
    rw [← h.booked, ← h.settled.holder hx]
    unfold Hub.claimOf at hq
    split at hq
    · cases hq
    · rename_i place hholder
      split at hq
      · cases hq
      · cases hq
        exact hholder
  refine Hub.steady_of_isEmpty ?_ ?_ ?_ ho.conflicts_eq_nil
  · rw [List.eq_nil_iff_forall_not_mem]
    intro path hmem
    obtain ⟨x, hx, rfl, q, hq, hnot⟩ := ho.mem_release_iff.mp hmem
    exact hnot (hclaim x hx q hq)
  · rw [List.eq_nil_iff_forall_not_mem]
    rintro ⟨path, name⟩ hmem
    obtain ⟨⟨x, hx, rfl, hfree⟩, hkeeps⟩ := ho.mem_acquire_iff.mp hmem
    rw [← h.booked, ← h.settled.holder hx] at hkeeps
    unfold Hub.claimOf at hfree
    rw [hkeeps] at hfree
    dsimp only at hfree
    split at hfree <;> cases hfree
  · rw [List.eq_nil_iff_forall_not_mem]
    rintro ⟨path, name⟩ hmem
    obtain ⟨_, p, y, hp, hy, _, horphaned⟩ := ho.mem_replace_iff.mp hmem
    have hheld := Hub.held?_of_get? hp
    rw [h.settled.isOrphaned (h.held hheld y hy)] at horphaned
    cases horphaned

theorem Agreed.serve (h : Agreed ledger r.site) (ho : r.hub.Orderly) {token : Token}
    {address : Option String} {request : Request}
    (hregular : Operation.Regular r.hub (.request token address request))
    (hr : (r.serve (Fleet.accompany choose) now token address request).2 = r')
    (htimely : r'.Timely) : ∃ ledger', Agreed ledger' r'.site := by
  have hn := ho.named
  have hchange : ∀ e : Except RequestError Hub, (∀ hub', e = .ok hub' → r.hub.Spares hub') →
      (r.change e).2 = r' → ∃ ledger', Agreed ledger' r'.site := by
    intro e he hr
    subst hr
    exact h.sparing (Run.change_sparing he)
  have hanswer : ∀ e : Except RequestError (Reservation × Hub),
      (∀ reservation hub', e = .ok (reservation, hub') → r.hub.Spares hub') →
      (r.answer e).2 = r' → ∃ ledger', Agreed ledger' r'.site := by
    intro e he hr
    subst hr
    exact h.sparing (Run.answer_sparing he)
  cases request with
  | addPlace name => exact hchange _ (fun _ => Hub.spares_addPlace hn) hr
  | deletePlace name =>
    refine hchange _ (fun _ he => Hub.spares_deletePlace hn he ?_) hr
    exact fun p hp => (ho.sole.free hp (hregular p hp)).1
  | addAlias place other => exact hchange _ (fun _ he => (Hub.edited_addAlias he).spares hn) hr
  | deleteAlias place other =>
    exact hchange _ (fun _ he => (Hub.edited_deleteAlias he).spares hn) hr
  | setTags place tags => exact hchange _ (fun _ => Hub.spares_setTags hn) hr
  | setComment place comment =>
    exact hchange _ (fun _ he => (Hub.edited_setComment he).spares hn) hr
  | addMatch place pattern rename =>
    exact hchange _ (fun _ he => (Hub.edited_addMatch he).spares hn) hr
  | deleteMatch place pattern rename =>
    exact hchange _ (fun _ he => (Hub.edited_deleteMatch he).spares hn) hr
  | acquire place => exact h.withPrincipal hr (fun _ hr => h.acquirePlace ho hr htimely)
  | release place user => exact h.releasePlace ho hr htimely
  | allow place user =>
    refine h.withPrincipal hr (fun _ hr => ?_)
    exact hchange _ (fun _ he => (Hub.edited_allow he).spares hn) hr
  | reserve filters prio =>
    refine h.withPrincipal hr (fun _ hr => ?_)
    refine hanswer _ (fun _ hub' he => ?_) hr
    rw [Hub.reserve_ok he]
    exact Hub.spares_rescheduled hn _ now
  | cancel text =>
    refine hchange _ (fun _ he => ?_) hr
    obtain ⟨_, _, rfl⟩ := Hub.cancel_ok he
    exact Hub.spares_rescheduled hn _ now
  | poll text => exact hanswer _ (fun _ _ => Hub.spares_poll) hr

/-- Every operation keeps the agreement, if its commands do not expire. -/
theorem Agreed.perform {hub : Hub} {fleet : Fleet} {y : σ} (h : Agreed ledger ⟨hub, fleet⟩)
    (ho : hub.Orderly) {op : Operation} (hregular : op.Regular hub)
    (hr : (Run.start hub (fleet, y)).perform (Fleet.accompany choose) now op = r')
    (htimely : r'.Timely) : ∃ ledger', Agreed ledger' r'.site := by
  obtain ⟨r, hstart⟩ : ∃ r, Run.start hub (fleet, y) = r := ⟨_, rfl⟩
  have h' : Agreed ledger r.site := by
    rw [← hstart]
    exact h
  have hhub : r.hub = hub := by
    rw [← hstart]
    rfl
  rw [← hhub] at ho hregular
  cases op with
  | event e => exact absurd hregular id
  | message client m =>
    rw [hstart] at hr
    exact h'.sparing ⟨_, hr.symm, Hub.spares_hearClient r.hub client m⟩
  | request token address request =>
    rw [hstart] at hr
    exact h'.serve ho hregular hr htimely
  | followUp link =>
    rw [hstart] at hr
    exact h'.nextFollowUp ho.named hr htimely
  | schedule =>
    rw [hstart] at hr
    exact h'.sparing ⟨_, hr.symm, Hub.spares_schedule ho.named now⟩
  | synchronize readings =>
    have hsteady := h.steady (hhub ▸ ho) (Fleet.accompany choose) (fleet, y) ⟨readings, now⟩
    have hpruned : r' = (Run.start hub (fleet, y)).modify (fun hub =>
        { hub with retries := hub.retries.prune (Clock.now ⟨readings, now⟩) }) := by
      rw [← hr]
      exact congrArg Prod.snd hsteady
    refine h'.sparing
      ⟨{ r.hub with retries := r.hub.retries.prune (Clock.now ⟨readings, now⟩) }, ?_, ?_⟩
    · rw [hpruned, hstart]
      rfl
    · exact .of_held rfl rfl (fun _ hw => hw) (fun _ => rfl)

end Operations

end BoardFarm
