import BoardFarm.Proofs.Errands
import BoardFarm.Proofs.Turnover

/-!
# A hub in accord with its fleet

Every link of the hub fits together with the exporter at its far end, and the holders of all
exporters are those of a ledger. At most one command is on its way. Whatever happens while its
answer is awaited, only the command gets further, and exporters announce what they have.

* `Accord`: a hub and its fleet at a stage of an errand.
* `Hub.Grows`: what cues do to the published resources.
* `Accord.change`, `Accord.relink`: what may change at one link.
* `Accord.opens`, `Accord.takes`, `Accord.serves`, `Accord.ends`, `Accord.leaves`, `Accord.client`:
  what cues do, but for messages that are read.
-/

namespace BoardFarm

/-- Nothing is withdrawn, the places are the same, and what is newly queued to be attached is
published. -/
structure Hub.Grows (hub hub' : Hub) : Prop where
  published : ∀ x ∈ hub.published, x ∈ hub'.published
  places : hub'.places = hub.places
  added : ∀ {id : Nat} {x : Handle}, (id, FollowUp.added x) ∈ hub'.followUps →
    (id, FollowUp.added x) ∈ hub.followUps ∨ x ∈ hub'.published

theorem Hub.Grows.refl (hub : Hub) : Grows hub hub := ⟨fun _ hx => hx, rfl, fun hx => Or.inl hx⟩

theorem Hub.Grows.trans {hub hub₁ hub₂ : Hub} (h : Grows hub hub₁) (h' : Grows hub₁ hub₂) :
    Grows hub hub₂ := by
  refine ⟨fun x hx => h'.published x (h.published x hx), h'.places.trans h.places, ?_⟩
  intro id x hx
  rcases h'.added hx with hold | hnew
  · exact (h.added hold).imp_right (h'.published x)
  · exact Or.inr hnew

/-- A hub and its fleet, while a command is at some stage. The ledger says who held the resources
before. -/
structure Accord (o : Errand) (stage : Stage) (ledger : Ledger) (s : Site) : Prop where
  filed : s.hub.Filed
  manned : ∀ id, (s.fleet.get? id).isSome = (s.hub.link id).isSome
  attuned : ∀ ⦃id : Nat⦄ ⦃l : Link⦄ ⦃p : Peer⦄, s.hub.link id = some l → s.fleet.get? id = some p →
    Attuned o (o.stageOn stage id) (o.booked ledger stage) s.hub.records l p
  backed : ∀ path, (ledger path).isSome → ∃ x ∈ s.hub.published, x.path = path
  named : ∀ path, ledger path ≠ some ""
  busy : stage ≠ .idle → o.place ≠ some "" ∧ (s.hub.link o.link).isSome

theorem SortedMap.modify_eq_self {κ ν : Type} [LT κ] [DecidableLT κ] [DecidableEq κ] [KeyOrder κ]
    {m : SortedMap κ ν} {k : κ} {f : ν → ν} (h : ∀ v, m.get? k = some v → f v = v) :
    m.modify k f = m := by
  apply SortedMap.ext_get?
  intro k'
  rw [get?_modify]
  split
  · rename_i he
    subst he
    cases hv : m.get? k with
    | none => rfl
    | some v => exact congrArg some (h v hv)
  · rfl

variable {o : Errand} {stage stage' : Stage} {ledger ledger' : Ledger} {s s' : Site} {id : Nat}
  {l l' : Link} {p p' : Peer} {records records' : SortedMap Nat ResourceRecord}

/-! ## One link changes -/

/-- What is published on a link stays published, under the same handles. -/
def Link.Keeps (l l' : Link) : Prop :=
  ∀ ⦃session : ExporterSession⦄, l.session = some session → ∃ session',
    l'.session = some session' ∧ ∀ group name x, session.find? group name = some x →
      session'.find? group name = some x

theorem Link.Keeps.of_session (h : l'.session = l.session) : l.Keeps l' :=
  fun session hs => ⟨session, h.trans hs, fun _ _ _ hx => hx⟩

/-- A link without a session has nothing to lose. -/
theorem Link.Keeps.of_none (h : l.session = none) : l.Keeps l' := by
  intro session hs
  rw [h] at hs
  cases hs

theorem Hub.published_of_keeps {hub hub' : Hub} (hl : hub.link id = some l)
    (hlink : ∀ k, hub'.link k = if id = k then some l' else hub.link k) (hkeeps : l.Keeps l') :
    ∀ x ∈ hub.published, x ∈ hub'.published := by
  intro x hx
  obtain ⟨k, session, group, name, hsession, hfind⟩ := Hub.mem_published_iff.mp hx
  obtain ⟨lk, hlk, hs⟩ := Hub.session_eq_some_iff.mp hsession
  by_cases hk : id = k
  · subst hk
    rw [hl] at hlk
    cases hlk
    obtain ⟨session', hs', hkept⟩ := hkeeps hs
    refine Hub.mem_published_iff.mpr ⟨id, session', group, name,
      Hub.session_eq_some_iff.mpr ⟨l', ?_, hs'⟩, hkept _ _ _ hfind⟩
    rw [hlink, if_pos rfl]
  · refine Hub.mem_published_iff.mpr ⟨k, session, group, name,
      Hub.session_eq_some_iff.mpr ⟨lk, ?_, hs⟩, hfind⟩
    rw [hlink, if_neg hk]
    exact hlk

theorem Errand.stageOn_of_ne (o : Errand) (stage : Stage) {k : Nat} (h : k ≠ o.link) :
    o.stageOn stage k = .idle := if_neg h

theorem Errand.stageOn_link (o : Errand) (stage : Stage) : o.stageOn stage o.link = stage :=
  if_pos rfl

theorem Errand.booked_of_ne (o : Errand) (ledger : Ledger) (stage : Stage) {path : ResourcePath}
    (h : path ≠ o.path) : o.booked ledger stage path = ledger path := by
  unfold booked
  split
  · exact Function.update_of_ne h ..
  · exact Function.update_of_ne h ..
  · rfl

/-- A link stays attuned while the ledger and the records change elsewhere. -/
theorem Attuned.frame (h : Attuned o stage ledger records l p)
    (hrecords : ∀ ⦃session : ExporterSession⦄, l.session = some session →
      ∀ ⦃group name : String⦄ ⦃x : Handle⦄, session.find? group name = some x →
        records'.get? x.serial = records.get? x.serial)
    (hledger : ∀ ⦃session : ExporterSession⦄, l.session = some session →
      ∀ path : ResourcePath, path.exporter = session.name → ledger' path = ledger path) :
    Attuned o stage ledger' records' l p := by
  cases h with
  | @registered session known rest hs hc hf =>
    have hacquainted := hc.acquainted.frame (hrecords hs)
    refine .registered hs { hc with acquainted := hacquainted } ?_
    intro group name x hx
    rw [hledger hs _ hc.acquainted.name.symm]
    exact hf hx
  | unregistered hs hidle hu => exact .unregistered hs hidle hu

/-- The command is about a resource of the exporter at the far end of its link. -/
theorem Accord.target (h : Accord o stage ledger s) (hstage : stage ≠ .idle) :
    ∃ session x, s.hub.session o.link = some session ∧
      session.find? o.path.group o.path.name = some x ∧ x.path = o.path ∧
      session.name = o.path.exporter := by
  obtain ⟨l, hl⟩ := Option.isSome_iff_exists.mp (h.busy hstage).2
  have hsome : (s.fleet.get? o.link).isSome := by rw [h.manned, hl]; rfl
  obtain ⟨p, hp⟩ := Option.isSome_iff_exists.mp hsome
  have hat := h.attuned hl hp
  rw [o.stageOn_link] at hat
  cases hat with
  | @registered session known rest hs hc hf =>
    obtain ⟨x, hx, hpath, _⟩ := hc.lawful hstage
    have hsession := Hub.session_eq_some_iff.mpr ⟨l, hl, hs⟩
    refine ⟨session, x, hsession, hx, hpath, ?_⟩
    rw [← hpath, (h.filed.paths hsession hx).1]
  | unregistered _ hidle _ => exact absurd hidle hstage

/-- What is booked is about published resources. -/
theorem Accord.backed_booked (h : Accord o stage ledger s) {path : ResourcePath}
    (hpath : (o.booked ledger stage path).isSome) : ∃ x ∈ s.hub.published, x.path = path := by
  by_cases he : stage ≠ .idle ∧ path = o.path
  · obtain ⟨session, x, hsession, hx, hxpath, _⟩ := h.target he.1
    exact ⟨x, Hub.mem_published_iff.mpr ⟨_, _, _, _, hsession, hx⟩, hxpath.trans he.2.symm⟩
  · refine h.backed path ?_
    by_cases hpath' : path = o.path
    · have hidle : stage = .idle := by
        by_contra hne
        exact he ⟨hne, hpath'⟩
      rw [hidle] at hpath
      exact hpath
    · rw [o.booked_of_ne ledger stage hpath'] at hpath
      exact hpath

/-- The other links stay attuned when the command gets further, and the records of what they have
published are the same. -/
theorem Accord.elsewhere (h : Accord o stage ledger s) (hl : s.hub.link id = some l)
    (hp : s.fleet.get? id = some p)
    (hstage : stage' = stage ∨ id ≠ o.link ∧ stage ≠ .idle)
    (hrecords : ∀ session, l.session = some session → ∀ group name x,
      session.find? group name = some x → records'.get? x.serial = s.hub.records.get? x.serial) :
    Attuned o (o.stageOn stage' id) (o.booked ledger stage') records' l p := by
  have hold := h.attuned hl hp
  rcases hstage with rfl | ⟨hid, hne⟩
  · exact hold.frame (fun session hs _ _ _ hx => hrecords session hs _ _ _ hx)
      (fun _ _ _ _ => rfl)
  · rw [o.stageOn_of_ne stage hid] at hold
    rw [o.stageOn_of_ne stage' hid]
    refine hold.frame (fun session hs _ _ _ hx => hrecords session hs _ _ _ hx) ?_
    intro session hs path hexporter
    -- the command is about a resource of another exporter
    obtain ⟨target, _, htarget, _, _, hname⟩ := h.target hne
    have hpath : path ≠ o.path := by
      rintro rfl
      exact hid (h.filed.names (Hub.session_eq_some_iff.mpr ⟨l, hl, hs⟩) htarget
        (hexporter.symm.trans hname.symm))
    rw [o.booked_of_ne ledger stage' hpath, o.booked_of_ne ledger stage hpath]

/-- A change of one link and of the exporter at its far end. -/
theorem Accord.change (h : Accord o stage ledger s) (hl : s.hub.link id = some l)
    (hfiled : s'.hub.Filed)
    (hlink : ∀ k, s'.hub.link k = if id = k then some l' else s.hub.link k)
    (hfleet : ∀ k, s'.fleet.get? k = if id = k then some p' else s.fleet.get? k)
    (hstage : stage' = stage ∨ id = o.link ∧ stage ≠ .idle) (hkeeps : l.Keeps l')
    (hrecords : ∀ k session, k ≠ id → s.hub.session k = some session →
      ∀ group name x, session.find? group name = some x →
        s'.hub.records.get? x.serial = s.hub.records.get? x.serial)
    (hat : Attuned o (o.stageOn stage' id) (o.booked ledger stage') s'.hub.records l' p') :
    Accord o stage' ledger s' ∧ ∀ x ∈ s.hub.published, x ∈ s'.hub.published := by
  have hpublished := Hub.published_of_keeps hl hlink hkeeps
  refine ⟨⟨hfiled, ?_, ?_, ?_, h.named, ?_⟩, hpublished⟩
  · intro k
    rw [hfleet, hlink]
    split
    · rfl
    · exact h.manned k
  · intro k lk pk hlk hpk
    rw [hlink] at hlk
    rw [hfleet] at hpk
    by_cases hk : id = k
    · subst hk
      rw [if_pos rfl] at hlk hpk
      cases hlk
      cases hpk
      exact hat
    · rw [if_neg hk] at hlk hpk
      refine h.elsewhere hlk hpk ?_ ?_
      · exact hstage.imp_right (fun hbusy => ⟨fun he => hk (hbusy.1.trans he.symm), hbusy.2⟩)
      · intro session hs
        exact hrecords k session (Ne.symm hk) (Hub.session_eq_some_iff.mpr ⟨lk, hlk, hs⟩)
  · intro path hpath
    obtain ⟨x, hx, hxpath⟩ := h.backed path hpath
    exact ⟨x, hpublished x hx, hxpath⟩
  · intro hstage'
    have hbusy : o.place ≠ some "" ∧ (s.hub.link o.link).isSome := by
      rcases hstage with rfl | ⟨_, hne⟩
      · exact h.busy hstage'
      · exact h.busy hne
    refine ⟨hbusy.1, ?_⟩
    rw [hlink]
    split
    · rfl
    · exact hbusy.2

/-! ## Cues -/

/-- The command gets further, if there is one, and nothing is lost. -/
def Proceeds (o : Errand) (stage : Stage) (ledger : Ledger) (s s' : Site) : Prop :=
  ∃ stage', Accord o stage' ledger s' ∧ (stage' = .idle ↔ stage = .idle) ∧ s.hub.Grows s'.hub

theorem Hub.grows_event? {hub : Hub} (hf : hub.Filed) (e : Option Event)
    (hpublished : ∀ x ∈ hub.published, x ∈ (hub.applyAll e.toList).published) :
    hub.Grows (hub.applyAll e.toList) := by
  cases e with
  | none => exact .refl hub
  | some e =>
    refine ⟨hpublished, (quiet_apply hub e).places, ?_⟩
    intro id x hx
    exact ((turnover_apply hf e).queued hx).imp_right And.left

theorem Accord.filed_step (h : Accord o stage ledger s) (c : Cue) : (s.step c).hub.Filed := by
  unfold Site.step
  cases s.event? c with
  | none => exact h.filed
  | some e => exact h.filed.apply e

/-- No command is on a link that does not exist. -/
theorem Accord.stageOn_of_none (h : Accord o stage ledger s) (hl : s.hub.link id = none) :
    o.stageOn stage id = .idle := by
  by_cases hid : id = o.link
  · subst hid
    rw [o.stageOn_link]
    by_contra hne
    have hbusy := (h.busy hne).2
    rw [hl] at hbusy
    cases hbusy
  · exact o.stageOn_of_ne stage hid

theorem Unregistered.fresh (name version : String) (inventory : Inventory) :
    Unregistered Link.new (Peer.fresh name version inventory) := by
  refine ⟨?_, rfl, rfl, rfl, rfl, fun _ => ⟨version, rfl⟩⟩
  intro group n x hx
  have hfind : (Exporter.new name inventory).find? group n = some x := hx
  rw [Exporter.find?_new] at hfind
  obtain ⟨e, _, rfl⟩ := Option.map_eq_some_iff.mp hfind
  rfl

/-- A freshly built exporter connects. -/
theorem Accord.opens (h : Accord o stage ledger s) (name version : String) (inventory : Inventory) :
    Proceeds o stage ledger s (s.step (.opens name version inventory)) := by
  obtain ⟨s', hs'⟩ : ∃ s', s.step (.opens name version inventory) = s' := ⟨_, rfl⟩
  have hnew := h.filed.links.get?_size
  have hlink : ∀ k, s'.hub.link k =
      if s.hub.links.size = k then some Link.new else s.hub.link k := by
    intro k
    rw [← hs']
    exact SortedMap.get?_insert ..
  have hfleet : ∀ k, s'.fleet.get? k = if s.hub.links.size = k then
      some (Peer.fresh name version inventory) else s.fleet.get? k := by
    intro k
    rw [← hs']
    exact SortedMap.get?_insert ..
  have hrecords : s'.hub.records = s.hub.records := by
    rw [← hs']
    rfl
  have hpublished : ∀ x ∈ s.hub.published, x ∈ s'.hub.published := by
    intro x hx
    rw [← hs']
    exact ((Hub.unmoved_exporterOpens h.filed).published x).mpr hx
  rw [hs']
  refine ⟨stage, ⟨?_, ?_, ?_, ?_, h.named, ?_⟩, Iff.rfl, ?_⟩
  · rw [← hs']
    exact h.filed_step _
  · intro k
    rw [hlink, hfleet]
    split
    · rfl
    · exact h.manned k
  · intro k l p hl hp
    rw [hlink] at hl
    rw [hfleet] at hp
    rw [hrecords]
    split at hl
    · rename_i hk
      rw [if_pos hk] at hp
      cases hl
      cases hp
      refine .unregistered rfl (h.stageOn_of_none ?_) (.fresh name version inventory)
      rw [← hk]
      exact hnew
    · rename_i hk
      rw [if_neg hk] at hp
      exact h.attuned hl hp
  · intro path hpath
    obtain ⟨x, hx, hxpath⟩ := h.backed path hpath
    exact ⟨x, hpublished x hx, hxpath⟩
  · intro hstage
    obtain ⟨hplace, hbusy⟩ := h.busy hstage
    refine ⟨hplace, ?_⟩
    rw [hlink]
    split
    · rfl
    · exact hbusy
  · rw [← hs']
    refine Hub.grows_event? h.filed (some .exporterOpens) ?_
    intro x hx
    exact ((Hub.unmoved_exporterOpens h.filed).published x).mpr hx

theorem Accord.proceeds (h : Accord o stage ledger s) {c : Cue}
    (hidle : stage' = .idle ↔ stage = .idle)
    (hchange : Accord o stage' ledger (s.step c) ∧
      ∀ x ∈ s.hub.published, x ∈ (s.step c).hub.published) :
    Proceeds o stage ledger s (s.step c) :=
  ⟨stage', hchange.1, hidle, Hub.grows_event? h.filed _ hchange.2⟩

theorem Accord.stays (h : Accord o stage ledger s) {c : Cue} (hsame : s.step c = s) :
    Proceeds o stage ledger s (s.step c) := by
  rw [hsame]
  exact ⟨stage, h, Iff.rfl, .refl _⟩

theorem Accord.peer (h : Accord o stage ledger s) (hl : s.hub.link id = some l) :
    ∃ p, s.fleet.get? id = some p := by
  have hsome : (s.fleet.get? id).isSome := by rw [h.manned, hl]; rfl
  exact Option.isSome_iff_exists.mp hsome

theorem Accord.no_peer (h : Accord o stage ledger s) (hl : s.hub.link id = none) :
    s.fleet.get? id = none := by
  have hnone : (s.fleet.get? id).isSome = false := by rw [h.manned, hl]; rfl
  simpa using hnone

theorem Errand.of_stageOn (h : o.stageOn stage id = stage') (hne : stage' ≠ .idle) :
    id = o.link ∧ stage = stage' := by
  unfold stageOn at h
  split at h
  · rename_i hid
    exact ⟨hid, h⟩
  · exact absurd h.symm hne

/-- A site with one link and the exporter at its far end changed. -/
def Site.relink (s : Site) (id : Nat) (f : Link → Link) (g : Peer → Peer) : Site :=
  ⟨s.hub.modifyLink id f, s.fleet.modify id g⟩

theorem Site.link_relink (hl : s.hub.link id = some l) (f : Link → Link) (g : Peer → Peer)
    (k : Nat) : (s.relink id f g).hub.link k = if id = k then some (f l) else s.hub.link k := by
  refine (Hub.link_modifyLink s.hub id k f).trans ?_
  split
  · rename_i he
    rw [← he, hl]
    rfl
  · rfl

theorem Site.fleet_relink (hp : s.fleet.get? id = some p) (f : Link → Link) (g : Peer → Peer)
    (k : Nat) : (s.relink id f g).fleet.get? k = if id = k then some (g p) else s.fleet.get? k := by
  refine (SortedMap.get?_modify s.fleet id k g).trans ?_
  split
  · rename_i he
    rw [← he, hp]
    rfl
  · rfl

theorem Accord.relink_absent (h : Accord o stage ledger s) (hl : s.hub.link id = none)
    (f : Link → Link) (g : Peer → Peer) : s.relink id f g = s := by
  have hlinks : s.hub.links.modify id f = s.hub.links := by
    refine SortedMap.modify_eq_self (fun l hl' => ?_)
    unfold Hub.link at hl
    rw [hl] at hl'
    cases hl'
  have hfleet : s.fleet.modify id g = s.fleet := by
    refine SortedMap.modify_eq_self (fun p hp => ?_)
    rw [h.no_peer hl] at hp
    cases hp
  unfold Site.relink Hub.modifyLink
  rw [hlinks, hfleet]

/-- A cue by which only a link and the exporter at its far end change, and no record. -/
theorem Accord.relink_at (h : Accord o stage ledger s) {c : Cue} {f : Link → Link} {g : Peer → Peer}
    (hl : s.hub.link id = some l) (hp : s.fleet.get? id = some p)
    (hstep : s.step c = s.relink id f g) (hidle : stage' = .idle ↔ stage = .idle)
    (hstage : stage' = stage ∨ id = o.link ∧ stage ≠ .idle)
    (hkeeps : l.Keeps (f l))
    (hat : Attuned o (o.stageOn stage' id) (o.booked ledger stage') s.hub.records (f l) (g p)) :
    Proceeds o stage ledger s (s.step c) := by
  have hfiled := h.filed_step c
  refine h.proceeds hidle ?_
  rw [hstep] at hfiled ⊢
  exact h.change hl hfiled (Site.link_relink hl f g) (Site.fleet_relink hp f g) hstage hkeeps
    (fun _ _ _ _ _ _ _ _ => rfl) hat

/-- The same where there may be no such link. -/
theorem Accord.relink (h : Accord o stage ledger s) {c : Cue} {f : Link → Link} {g : Peer → Peer}
    (hstep : s.step c = s.relink id f g)
    (hat : ∀ l p, s.hub.link id = some l → s.fleet.get? id = some p → ∃ stage',
      (stage' = .idle ↔ stage = .idle) ∧ (stage' = stage ∨ id = o.link ∧ stage ≠ .idle) ∧
      l.Keeps (f l) ∧
      Attuned o (o.stageOn stage' id) (o.booked ledger stage') s.hub.records (f l) (g p)) :
    Proceeds o stage ledger s (s.step c) := by
  cases hl : s.hub.link id with
  | none => exact h.stays (hstep.trans (h.relink_absent hl f g))
  | some l =>
    obtain ⟨p, hp⟩ := h.peer hl
    obtain ⟨stage', hidle, hstage, hkeeps, hat'⟩ := hat l p hl hp
    exact h.relink_at hl hp hstep hidle hstage hkeeps hat'

/-- An exporter takes what it is sent next. -/
theorem Accord.takes (h : Accord o stage ledger s) (id : Nat) :
    Proceeds o stage ledger s (s.step (.takes id)) := by
  have hstep : s.step (.takes id) = s.relink id (fun l => l.deliver.2)
      (fun p => p.receive (s.delivery? id)) := rfl
  refine h.relink hstep ?_
  intro l p hl hp
  have hdelivery : s.delivery? id = l.deliver.1 := by
    unfold Site.delivery?
    rw [hl]
    rfl
  have hsession : l.deliver.2.session = l.session := (Link.deliver_session l).1
  have hkeeps : l.Keeps l.deliver.2 := .of_session hsession
  rw [hdelivery]
  cases h.attuned hl hp with
  | @registered session known rest hs hc hf =>
    rcases hc.takes with ⟨hsame, _⟩ | ⟨hqueued, _, htaken⟩
    · exact ⟨stage, Iff.rfl, Or.inl rfl, hkeeps,
        .registered (hsession.trans hs) hsame hf⟩
    · obtain ⟨rfl, rfl⟩ := Errand.of_stageOn hqueued (by decide)
      refine ⟨.taken, by decide, Or.inr ⟨rfl, by decide⟩, hkeeps, ?_⟩
      rw [o.stageOn_link]
      exact .registered (hsession.trans hs) htaken hf
  | unregistered hs hidle hu =>
    obtain ⟨hchannel, _, hphase, hnot⟩ := Link.deliver_of_queue_nil hu.queue
    refine ⟨stage, Iff.rfl, Or.inl rfl, hkeeps, ?_⟩
    rw [Peer.receive_of_not_command hnot]
    refine .unregistered (hsession.trans hs) hidle ⟨hu.free, ?_, ?_, ?_, hu.inbox,
      fun hc => hu.outbox (hphase hc)⟩ <;> rw [hchannel]
    · exact hu.queue
    · exact hu.pending
    · exact hu.outcomes

/-- An exporter serves its oldest command. -/
theorem Accord.serves (h : Accord o stage ledger s) (id : Nat) :
    Proceeds o stage ledger s (s.step (.serves id)) := by
  have hstep : s.step (.serves id) = s.relink id (fun l => l) Peer.serve := by
    have hlinks : s.hub.links.modify id (fun l => l) = s.hub.links :=
      SortedMap.modify_eq_self (fun _ _ => rfl)
    unfold Site.relink Hub.modifyLink
    rw [hlinks]
    rfl
  refine h.relink hstep ?_
  intro l p hl hp
  cases h.attuned hl hp with
  | @registered session known rest hs hc hf =>
    rcases hc.serves with hsame | ⟨htaken, hserved⟩
    · exact ⟨stage, Iff.rfl, Or.inl rfl, .of_session rfl, .registered hs hsame hf⟩
    · obtain ⟨rfl, rfl⟩ := Errand.of_stageOn htaken (by decide)
      refine ⟨.served, by decide, Or.inr ⟨rfl, by decide⟩, .of_session rfl, ?_⟩
      rw [o.stageOn_link]
      exact .registered hs hserved hf
  | unregistered hs hidle hu =>
    have hserve : p.serve = p := by
      unfold Peer.serve
      rw [hu.inbox]
    refine ⟨stage, Iff.rfl, Or.inl rfl, .of_session rfl, ?_⟩
    rw [hserve]
    exact .unregistered hs hidle hu

theorem Channel.endReplies_of_pending_nil {ch : Channel} (h : ch.pending = []) :
    ch.endReplies = ch := by
  cases ch
  subst h
  rfl

theorem Channel.discardQueue_of_queue_nil {ch : Channel} (h : ch.queue = []) :
    ch.discardQueue = ch := by
  cases ch
  subst h
  rfl

/-- A link without a session ends, whichever way. -/
theorem Unregistered.ends (hu : Unregistered l p) (hchannel : l'.channel = l.channel)
    (hphase : l'.phase ≠ .connected) : Unregistered l' p := by
  refine ⟨hu.free, ?_, ?_, ?_, hu.inbox, fun hc => absurd hc hphase⟩ <;> rw [hchannel]
  · exact hu.queue
  · exact hu.pending
  · exact hu.outcomes

theorem Accord.disconnects (h : Accord o stage ledger s) {c : Cue} {finish : Link → Link}
    (hstep : s.step c = ⟨s.hub.disconnect id finish, s.fleet⟩) (hnone : s.hub.session id = none)
    (hfinish : ∀ l p, l.session = none → Unregistered l p →
      (finish l).session = none ∧ Unregistered (finish l) p) :
    Proceeds o stage ledger s (s.step c) := by
  have hwithdraw : s.hub.withdrawAll id = s.hub := by
    unfold Hub.withdrawAll
    rw [hnone]
  cases hl : s.hub.link id with
  | none =>
    refine h.stays (hstep.trans ?_)
    unfold Hub.disconnect
    rw [hl]
  | some l =>
    have hdisconnect : s.hub.disconnect id finish = s.hub.modifyLink id finish := by
      unfold Hub.disconnect
      rw [hl, hwithdraw]
      dsimp only
      split <;> rfl
    have hfleet : s.fleet.modify id (fun p => p) = s.fleet :=
      SortedMap.modify_eq_self (fun _ _ => rfl)
    have hrelink : s.step c = s.relink id finish (fun p => p) := by
      unfold Site.relink
      rw [hstep, hdisconnect, hfleet]
    obtain ⟨p, hp⟩ := h.peer hl
    cases h.attuned hl hp with
    | @registered session known rest hs hc hf =>
      have hsession := Hub.session_eq_some_iff.mpr ⟨l, hl, hs⟩
      rw [hnone] at hsession
      cases hsession
    | unregistered hs hidle hu =>
      obtain ⟨hs', hu'⟩ := hfinish l p hs hu
      exact h.relink_at hl hp hrelink Iff.rfl (Or.inl rfl) (.of_none hs)
        (.unregistered hs' hidle hu')

/-- The link of an exporter that is not registered ends. -/
theorem Accord.ends (h : Accord o stage ledger s) (id : Nat) :
    Proceeds o stage ledger s (s.step (.ends id)) := by
  cases hsession : s.hub.session id with
  | some session =>
    have hevent : s.event? (.ends id) = none := if_neg (by simp [hsession])
    exact h.stays (Site.step_of_none hevent)
  | none =>
    have hevent : s.event? (.ends id) = some (.exporterEnds id) := if_pos (by simp [hsession])
    refine h.disconnects (Site.step_of_some hevent) hsession ?_
    intro l p hs hu
    split
    · exact ⟨rfl, hu.ends (Channel.endReplies_of_pending_nil hu.pending) (fun hc => by cases hc)⟩
    · exact ⟨hs, hu⟩

/-- An exporter that is not registered leaves. -/
theorem Accord.leaves (h : Accord o stage ledger s) (id : Nat) :
    Proceeds o stage ledger s (s.step (.leaves id)) := by
  cases hsession : s.hub.session id with
  | some session =>
    have hevent : s.event? (.leaves id) = none := if_neg (by simp [hsession])
    exact h.stays (Site.step_of_none hevent)
  | none =>
    have hevent : s.event? (.leaves id) = some (.exporterLeaves id) := if_pos (by simp [hsession])
    refine h.disconnects (Site.step_of_some hevent) hsession ?_
    intro l p _ hu
    refine ⟨rfl, hu.ends ?_ (fun hc => by cases hc)⟩
    show l.channel.endReplies.discardQueue = l.channel
    rw [Channel.endReplies_of_pending_nil hu.pending, Channel.discardQueue_of_queue_nil hu.queue]

/-- The accord depends on links and records. -/
theorem Accord.of_same (h : Accord o stage ledger s) (hlinks : s'.hub.links = s.hub.links)
    (hrecords : s'.hub.records = s.hub.records) (hfleet : s'.fleet = s.fleet) :
    Accord o stage ledger s' := by
  have hlink : ∀ id, s'.hub.link id = s.hub.link id := fun id => by
    unfold Hub.link
    rw [hlinks]
  refine ⟨h.filed.shrink (.of_eq hlinks hrecords), ?_, ?_, ?_, h.named, ?_⟩
  · intro id
    rw [hfleet, hlink]
    exact h.manned id
  · intro id l p hl hp
    rw [hlink] at hl
    rw [hfleet] at hp
    rw [hrecords]
    exact h.attuned hl hp
  · rw [Hub.published_of_links hlinks]
    exact h.backed
  · rw [hlink]
    exact h.busy

/-- Clients have no part in it. -/
theorem Accord.client (h : Accord o stage ledger s) (e : Event) :
    Proceeds o stage ledger s (s.step (.client e)) := by
  cases he : e.concernsClients with
  | false =>
    have hevent : s.event? (.client e) = none := if_neg (by simp [he])
    exact h.stays (Site.step_of_none hevent)
  | true =>
    have hevent : s.event? (.client e) = some e := if_pos he
    have hlinks : (s.hub.apply e).links = s.hub.links := by
      cases e <;> first | rfl | cases he
    have hrecords : (s.hub.apply e).records = s.hub.records := by
      cases e <;> first | rfl | cases he
    refine h.proceeds Iff.rfl ?_
    rw [Site.step_of_some hevent]
    refine ⟨h.of_same hlinks hrecords rfl, fun x hx => ?_⟩
    rw [Hub.published_of_links hlinks]
    exact hx

end BoardFarm
