import BoardFarm.Proofs.ResourceTable

/-!
# What exporters do to the tree

An event leaves the published handles and their records alone, or a resource is published, or
handles are withdrawn, one after another. The end of an exporter withdraws all that it has.

* `Hub.Unmoved`: changes that leave handles and records alone.
* `Hub.Withdraws`: withdrawals one after another.
* `Hub.TreeChange`, `Hub.treeChange_apply`: every event of an exporter is one of these.
-/

namespace BoardFarm.Hub

/-- The published handles and all records are the same, nobody is told anything, and no work is
new. -/
structure Unmoved (hub hub' : Hub) : Prop where
  published : ∀ x, x ∈ hub'.published ↔ x ∈ hub.published
  records : hub'.records = hub.records
  clients : hub'.clients = hub.clients
  followUps : hub'.followUps = hub.followUps

/-- Handles are withdrawn one after another. -/
inductive Withdraws : Hub → List Handle → Hub → Prop
  | nil (hub : Hub) : Withdraws hub [] hub
  | cons {hub hub' : Hub} {x : Handle} {rest : List Handle} {id : Nat}
      {s left : ExporterSession} (hs : hub.session id = some left)
      (hin : left.find? x.path.group x.path.name = some x)
      (hfind : s.find? x.path.group x.path.name = some x)
      (h : Withdraws (hub.withdraw id s x.path.group x.path.name) rest hub') :
      Withdraws hub (x :: rest) hub'

/-- What an event of an exporter does to the tree. -/
inductive TreeChange (hub : Hub) : Hub → Prop
  | unmoved {hub' : Hub} (h : Unmoved hub hub') : TreeChange hub hub'
  | publish {id : Nat} {s : ExporterSession} (hs : hub.session id = some s)
      (group name : String) (r : ResourceReport) (hcls : r.cls ≠ "") :
      TreeChange hub (hub.publish id s group name (ResourceRecord.ofReport r))
  | withdraw {l : List Handle} {hub₁ hub' : Hub} (h : Withdraws hub l hub₁)
      (hrest : Unmoved hub₁ hub') : TreeChange hub hub'

theorem Unmoved.refl (hub : Hub) : Unmoved hub hub := ⟨fun _ => Iff.rfl, rfl, rfl, rfl⟩

/-! ## Changes of a link -/

/-- A change of a link moves nothing if it leaves the handles of its session alone. -/
theorem unmoved_modifyLink {hub : Hub} {id : Nat} {f : Link → Link}
    (hf : ∀ l, hub.link id = some l → ∀ group name x,
      (∃ s, (f l).session = some s ∧ s.find? group name = some x) ↔
        ∃ s, l.session = some s ∧ s.find? group name = some x) :
    Unmoved hub (hub.modifyLink id f) := by
  refine ⟨?_, rfl, rfl, rfl⟩
  intro x
  rw [mem_published_iff, mem_published_iff]
  constructor
  · rintro ⟨id', s, group, name, hs, hx⟩
    obtain ⟨l', hl', hs'⟩ := session_eq_some_iff.mp hs
    rw [link_modifyLink] at hl'
    split at hl'
    · rename_i he
      subst he
      obtain ⟨l, hl, rfl⟩ := Option.map_eq_some_iff.mp hl'
      obtain ⟨t, ht, hxt⟩ := (hf l hl group name x).mp ⟨s, hs', hx⟩
      exact ⟨id, t, group, name, session_eq_some_iff.mpr ⟨l, hl, ht⟩, hxt⟩
    · exact ⟨id', s, group, name, session_eq_some_iff.mpr ⟨l', hl', hs'⟩, hx⟩
  · rintro ⟨id', s, group, name, hs, hx⟩
    obtain ⟨l, hl, hls⟩ := session_eq_some_iff.mp hs
    by_cases he : id = id'
    · subst he
      obtain ⟨t, ht, hxt⟩ := (hf l hl group name x).mpr ⟨s, hls, hx⟩
      refine ⟨id, t, group, name, session_eq_some_iff.mpr ⟨f l, ?_, ht⟩, hxt⟩
      rw [link_modifyLink, if_pos rfl, hl]
      rfl
    · refine ⟨id', s, group, name, session_eq_some_iff.mpr ⟨l, ?_, hls⟩, hx⟩
      rw [link_modifyLink, if_neg he]
      exact hl

theorem unmoved_modifyLink_same {hub : Hub} {id : Nat} {f : Link → Link}
    (hf : ∀ l, (f l).session = l.session) : Unmoved hub (hub.modifyLink id f) := by
  apply unmoved_modifyLink
  intro l _ group name x
  rw [hf]

/-- The end of a link moves nothing where its session has no handles. -/
theorem unmoved_finish {hub : Hub} {id : Nat} {finish : Link → Link}
    (hfinish : Link.KeepsOrEnds finish)
    (hempty : ∀ s, hub.session id = some s → ∀ group name, s.find? group name = none) :
    Unmoved hub (hub.modifyLink id finish) := by
  apply unmoved_modifyLink
  intro l hl group name x
  have hleft : ¬ ∃ s, l.session = some s ∧ s.find? group name = some x := by
    rintro ⟨s, hs, hx⟩
    rw [hempty s (session_eq_some_iff.mpr ⟨l, hl, hs⟩) group name] at hx
    cases hx
  rcases hfinish l with hnone | ⟨hsame, _⟩
  · rw [hnone]
    refine ⟨?_, fun hx => absurd hx hleft⟩
    rintro ⟨s, hs, _⟩
    cases hs
  · rw [hsame]

theorem unmoved_register {hub : Hub} {id : Nat} {l : Link} (hl : hub.link id = some l)
    (hnew : l.session = none) (name version : String) :
    Unmoved hub (hub.register id name version) := by
  have hempty : ∀ s, hub.session id = some s → ∀ group name, s.find? group name = none := by
    intro s hs
    rw [session_of_link hl, hnew] at hs
    cases hs
  unfold register
  dsimp only
  split
  · exact unmoved_finish (fun _ => Or.inl rfl) hempty
  · split
    · exact unmoved_finish (fun _ => Or.inl rfl) hempty
    · apply unmoved_modifyLink
      intro l' hl' group name' x
      rw [hl] at hl'
      cases hl'
      rw [hnew]
      constructor
      · rintro ⟨s, hs, hx⟩
        cases hs
        cases hx
      · rintro ⟨s, hs, _⟩
        cases hs

/-- A link that opens has no session yet. -/
theorem session_exporterOpens {hub : Hub} (hf : hub.Filed) (id : Nat) :
    (hub.apply .exporterOpens).session id = hub.session id := by
  show ((hub.links.insert hub.links.size Link.new).get? id).bind Link.session =
    (hub.links.get? id).bind Link.session
  rw [SortedMap.get?_insert]
  split
  · rename_i he
    rw [← he, hf.links.get?_size]
    rfl
  · rfl

theorem unmoved_exporterOpens {hub : Hub} (hf : hub.Filed) :
    Unmoved hub (hub.apply .exporterOpens) := by
  refine ⟨?_, rfl, rfl, rfl⟩
  intro x
  rw [mem_published_iff, mem_published_iff]
  simp only [session_exporterOpens hf]

/-! ## Withdrawals -/

theorem Withdraws.filed {hub hub' : Hub} {l : List Handle} (h : Withdraws hub l hub')
    (hf : hub.Filed) : hub'.Filed := by
  induction h with
  | nil => exact hf
  | cons _ _ _ _ ih => exact ih (hf.shrink (shrinks_withdraw ..))

/-- Handles of a session are withdrawn one after another. What is left of the session are the
handles that are still to be withdrawn, and in the end none. -/
theorem withdraws_foldl {hub : Hub} {id : Nat} {s left : ExporterSession} {l : List Handle}
    (hf : hub.Filed) (hleft : hub.session id = some left) (hnodup : l.Nodup)
    (hall : ∀ x ∈ l, s.find? x.path.group x.path.name = some x)
    (hin : ∀ x ∈ l, left.find? x.path.group x.path.name = some x)
    (honly : ∀ group name x, left.find? group name = some x → x ∈ l) :
    Withdraws hub l (l.foldl (fun hub h => hub.withdraw id s h.path.group h.path.name) hub) ∧
      ∃ rest, (l.foldl (fun hub h => hub.withdraw id s h.path.group h.path.name)
        hub).session id = some rest ∧ ∀ group name, rest.find? group name = none := by
  induction l generalizing hub left with
  | nil =>
    refine ⟨.nil hub, left, hleft, ?_⟩
    intro group name
    cases hx : left.find? group name with
    | none => rfl
    | some x => cases honly group name x hx
  | cons x rest ih =>
    obtain ⟨hnot, hnodup⟩ := List.nodup_cons.mp hnodup
    have hx := hall x (List.mem_cons_self ..)
    have hx' := hin x (List.mem_cons_self ..)
    have hsession : (hub.withdraw id s x.path.group x.path.name).session id =
        some (left.remove x.path.group x.path.name) := by
      rw [session_withdraw id id hx, if_pos rfl, hleft]
      rfl
    have hfind := left.find?_remove x.path.group x.path.name
    obtain ⟨hrest, hempty⟩ := ih (hf.shrink (shrinks_withdraw ..)) hsession hnodup
      (fun y hy => hall y (List.mem_cons_of_mem _ hy)) (by
        intro y hy
        rw [hfind, if_neg]
        · exact hin y (List.mem_cons_of_mem _ hy)
        · -- two handles of the session would be filed under one group and name
          rintro ⟨hg, hn⟩
          have hy' := hall y (List.mem_cons_of_mem _ hy)
          rw [← hg, ← hn, hx] at hy'
          cases hy'
          exact hnot hy) (by
        intro group name y hy
        rw [hfind] at hy
        split at hy
        · cases hy
        · rename_i hne
          rcases List.mem_cons.mp (honly group name y hy) with rfl | hrest
          · exact absurd (hf.paths hleft hy).2 hne
          · exact hrest)
    exact ⟨.cons hleft hx' hx hrest, hempty⟩

/-- All resources of an exporter are withdrawn, and none is left. -/
theorem withdraws_withdrawAll {hub : Hub} (hf : hub.Filed) (id : Nat) :
    ∃ l hub₁ dirty, Withdraws hub l hub₁ ∧ hub.withdrawAll id = { hub₁ with dirty := dirty } ∧
      ∀ s, hub₁.session id = some s → ∀ group name, s.find? group name = none := by
  unfold withdrawAll
  split
  · rename_i hnone
    refine ⟨[], hub, hub.dirty, .nil hub, rfl, ?_⟩
    intro s hs
    rw [hnone] at hs
    cases hs
  · rename_i s hs
    have hhandles : (s.handles.map Handle.path).Nodup :=
      ExporterSession.nodup_handles (fun hf' => (hf.paths hs hf').2)
    have hall : ∀ x ∈ s.handles, s.find? x.path.group x.path.name = some x := by
      intro x hx
      obtain ⟨group, name, hfx⟩ := ExporterSession.mem_handles_iff.mp hx
      obtain ⟨_, hg, hn⟩ := hf.paths hs hfx
      rw [hg, hn]
      exact hfx
    obtain ⟨hw, rest, hrest, hempty⟩ := withdraws_foldl hf hs hhandles.of_map hall hall
      (fun group name x hx => ExporterSession.mem_handles_iff.mpr ⟨group, name, hx⟩)
    refine ⟨s.handles, _, true, hw, rfl, ?_⟩
    intro s' hs'
    have he : some rest = some s' := hrest.symm.trans hs'
    cases he
    exact hempty

theorem treeChange_disconnect {hub : Hub} (hf : hub.Filed) (id : Nat) {finish : Link → Link}
    (hfinish : Link.KeepsOrEnds finish) : TreeChange hub (hub.disconnect id finish) := by
  unfold disconnect
  split
  · exact .unmoved (.refl hub)
  · rename_i l hl
    split
    · obtain ⟨handles, hub₁, dirty, hw, he, hempty⟩ := withdraws_withdrawAll hf id
      have hrest : Unmoved { hub₁ with dirty := dirty }
          (modifyLink { hub₁ with dirty := dirty } id finish) := unmoved_finish hfinish hempty
      rw [he]
      exact .withdraw hw ⟨hrest.published, hrest.records, hrest.clients, hrest.followUps⟩
    · rename_i hphase
      refine .unmoved (unmoved_finish hfinish ?_)
      intro s hs
      rw [session_of_link hl] at hs
      exact absurd (hf.connected hl (by rw [hs]; rfl)) hphase

theorem publish_of_none {hub : Hub} {id : Nat} {s : ExporterSession} {group name : String}
    (hx : s.find? group name = none) (r : ResourceRecord) :
    hub.publish id s group name r = hub.publishNew id s group name r := by
  unfold publish
  rw [hx]

theorem publish_of_cls {hub : Hub} {id : Nat} {s : ExporterSession} {group name : String}
    {x : Handle} {r : ResourceRecord} (hx : s.find? group name = some x)
    (hcls : x.path.cls = r.cls) :
    hub.publish id s group name r =
      (hub.modifyRecord x (fun old => old.merge r)).publishResource x := by
  unfold publish
  rw [hx]
  exact if_pos (beq_iff_eq.mpr hcls)

theorem publish_of_other_cls {hub : Hub} {id : Nat} {s : ExporterSession} {group name : String}
    {x : Handle} {r : ResourceRecord} (hx : s.find? group name = some x)
    (hcls : x.path.cls ≠ r.cls) :
    hub.publish id s group name r = (hub.orphanIfHeld x).publishNew id s group name r := by
  unfold publish
  rw [hx]
  exact if_neg (fun he => hcls (beq_iff_eq.mp he))

/-- A report of a class is taken over as it is. -/
theorem hearExporter_resource {hub : Hub} (hf : hub.Filed) {id : Nat} {s : ExporterSession}
    (hs : hub.session id = some s) {r : ResourceReport} {group name : String}
    (haddress : r.address = some (group, name)) (hcls : r.cls ≠ "") :
    hub.hearExporter id (.resource r) =
      hub.publish id s group name (ResourceRecord.ofReport r) := by
  obtain ⟨l, hl, hls⟩ := session_eq_some_iff.mp hs
  have hphase : l.phase = .connected := hf.connected hl (by rw [hls]; rfl)
  unfold hearExporter report
  simp [hl, hphase, hls, haddress, hcls]

theorem treeChange_report {hub : Hub} (hf : hub.Filed) {id : Nat} {s : ExporterSession}
    (hs : hub.session id = some s) (r : ResourceReport) : TreeChange hub (hub.report id s r) := by
  unfold report
  split
  · exact .unmoved (.refl hub)
  · rename_i group name _
    split
    · cases hx : s.find? group name with
      | none =>
        unfold withdraw
        rw [hx]
        exact .unmoved (.refl hub)
      | some x =>
        obtain ⟨_, hg, hn⟩ := hf.paths hs hx
        subst hg
        subst hn
        exact .withdraw (.cons hs hx hx (.nil _)) (.refl _)
    · rename_i hcls
      refine .publish hs group name r ?_
      intro he
      exact hcls (by rw [he]; rfl)

theorem treeChange_hearExporter {hub : Hub} (hf : hub.Filed) (id : Nat) (m : ExporterMessage) :
    TreeChange hub (hub.hearExporter id m) := by
  unfold hearExporter
  split
  · exact .unmoved (.refl hub)
  · rename_i l hl
    split
    · exact .unmoved (.refl hub)
    · split
      · exact .unmoved (.refl hub)
      · rename_i hnew
        exact .unmoved (unmoved_register hl hnew ..)
      · rename_i hls
        exact treeChange_report hf (session_eq_some_iff.mpr ⟨l, hl, hls⟩) _
      · exact .unmoved (.refl hub)
      · exact .unmoved (unmoved_modifyLink_same (fun _ => rfl))
      · exact .unmoved (.refl hub)

/-- An event is a change of the tree, or it concerns clients only. -/
theorem treeChange_apply {hub : Hub} (hf : hub.Filed) (e : Event) :
    TreeChange hub (hub.apply e) ∨
      (hub.apply e).links = hub.links ∧ (hub.apply e).records = hub.records ∧
        (hub.apply e).followUps = hub.followUps := by
  cases e with
  | exporterOpens => exact Or.inl (.unmoved (unmoved_exporterOpens hf))
  | exporterSends id m => exact Or.inl (treeChange_hearExporter hf id m)
  | exporterTakes id =>
    exact Or.inl (.unmoved (unmoved_modifyLink_same (fun l => l.deliver_session.1)))
  | exporterEnds id => exact Or.inl (treeChange_disconnect hf id Link.keepsOrEnds_finish)
  | exporterLeaves id => exact Or.inl (treeChange_disconnect hf id Link.keepsOrEnds_close)
  | clientOpens address => exact Or.inr ⟨rfl, rfl, rfl⟩
  | clientStarts id name version => exact Or.inr ⟨rfl, rfl, rfl⟩
  | clientSyncs id n => exact Or.inr ⟨rfl, rfl, rfl⟩
  | clientFollowsResources id enable => exact Or.inr ⟨rfl, rfl, rfl⟩
  | clientLeaves id => exact Or.inr ⟨rfl, rfl, rfl⟩

end BoardFarm.Hub
