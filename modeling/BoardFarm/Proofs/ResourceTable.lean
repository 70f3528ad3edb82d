import BoardFarm.Proofs.PublishedResources

/-!
# The table of published resources

Clients are told of resources under exporter, group and name. No two published handles agree in
these, so the published resources are a table over them. A report or a withdrawal changes one
entry of the table and announces just that change.

* `Hub.resourceTable`: the published resources as clients are shown them.
* `Hub.Announced`: a change of the table that is told as it is.
* `Hub.announced_withdraw`, `Hub.announced_publish`: reports and withdrawals are announced.
-/

namespace BoardFarm

/-- Where a resource is found whatever its class: exporter, group and name. -/
def ResourcePath.slot (p : ResourcePath) : List String := [p.exporter, p.group, p.name]

/-- Where a shown resource is found. -/
def ResourceView.slot (v : ResourceView) : List String := [v.exporter, v.group, v.name]

theorem ResourcePath.slot_eq_iff {p q : ResourcePath} :
    p.slot = q.slot ↔ p.exporter = q.exporter ∧ p.group = q.group ∧ p.name = q.name := by
  unfold slot
  simp

/-- What an update does to a copy of the resources. -/
def Update.intoResources (copy : SortedMap (List String) ResourceView) :
    Update → SortedMap (List String) ResourceView
  | .place _ => copy
  | .deletedPlace _ => copy
  | .resource v => copy.insert v.slot v
  | .deletedResource path => copy.erase path.slot

namespace Hub

/-- The published resources as clients are shown them, by exporter, group and name. -/
def resourceTable (hub : Hub) : SortedMap (List String) ResourceView :=
  SortedMap.ofList (hub.published.map (fun h => (h.path.slot, hub.viewOf h)))

/-- Published handles are told apart by exporter, group and name. -/
theorem Filed.eq_of_slot {hub : Hub} (h : hub.Filed) {x y : Handle} (hx : x ∈ hub.published)
    (hy : y ∈ hub.published) (he : x.path.slot = y.path.slot) : x = y := by
  obtain ⟨he, hg, hn⟩ := ResourcePath.slot_eq_iff.mp he
  obtain ⟨id, s, group, name, hs, hf⟩ := mem_published_iff.mp hx
  obtain ⟨id', s', group', name', hs', hf'⟩ := mem_published_iff.mp hy
  obtain ⟨hpe, hpg, hpn⟩ := h.paths hs hf
  obtain ⟨hpe', hpg', hpn'⟩ := h.paths hs' hf'
  have hid : id = id' := h.names hs hs' (by rw [← hpe, ← hpe', he])
  subst hid
  rw [hs] at hs'
  cases hs'
  rw [← hpg, ← hpn, hg, hn, hpg', hpn', hf'] at hf
  exact (Option.some.inj hf).symm

theorem get?_resourceTable {hub : Hub} (h : hub.Filed) {k : List String} {v : ResourceView} :
    hub.resourceTable.get? k = some v ↔
      ∃ x ∈ hub.published, x.path.slot = k ∧ hub.viewOf x = v := by
  have hmem : ∀ k v, (k, v) ∈ hub.published.map (fun h => (h.path.slot, hub.viewOf h)) ↔
      ∃ x ∈ hub.published, x.path.slot = k ∧ hub.viewOf x = v := by
    intro k v
    simp [List.mem_map]
  unfold resourceTable
  rw [SortedMap.get?_ofList_iff, hmem]
  intro k v w hv hw
  obtain ⟨x, hx, hxk, rfl⟩ := (hmem k v).mp hv
  obtain ⟨y, hy, hyk, rfl⟩ := (hmem k w).mp hw
  rw [h.eq_of_slot hx hy (hxk.trans hyk.symm)]

/-! ## Changes of the table -/

theorem resourceTable_congr {hub hub' : Hub} (h : hub.Filed) (h' : hub'.Filed)
    (hmem : ∀ x, x ∈ hub'.published ↔ x ∈ hub.published)
    (hview : ∀ x ∈ hub.published, hub'.viewOf x = hub.viewOf x) :
    hub'.resourceTable = hub.resourceTable := by
  apply SortedMap.ext_get?
  intro k
  apply Option.ext
  intro v
  rw [get?_resourceTable h, get?_resourceTable h']
  constructor
  · rintro ⟨x, hx, hk, hv⟩
    have hx' := (hmem x).mp hx
    exact ⟨x, hx', hk, (hview x hx').symm.trans hv⟩
  · rintro ⟨x, hx, hk, hv⟩
    exact ⟨x, (hmem x).mpr hx, hk, (hview x hx).trans hv⟩

/-- A handle takes its place in the table, and all others stay. -/
theorem resourceTable_insert {hub hub' : Hub} (h : hub.Filed) (h' : hub'.Filed) {new : Handle}
    (hmem : ∀ x, x ∈ hub'.published ↔
      x = new ∨ x ∈ hub.published ∧ x.path.slot ≠ new.path.slot)
    (hview : ∀ x ∈ hub.published, x.path.slot ≠ new.path.slot → hub'.viewOf x = hub.viewOf x) :
    hub'.resourceTable = hub.resourceTable.insert new.path.slot (hub'.viewOf new) := by
  apply SortedMap.ext_get?
  intro k
  rw [SortedMap.get?_insert]
  apply Option.ext
  intro v
  rw [get?_resourceTable h']
  split
  · rename_i hk
    constructor
    · rintro ⟨x, hx, hxk, rfl⟩
      have hnew : new ∈ hub'.published := (hmem new).mpr (Or.inl rfl)
      rw [h'.eq_of_slot hx hnew (hxk.trans hk.symm)]
    · intro hv
      exact ⟨new, (hmem new).mpr (Or.inl rfl), hk, Option.some.inj hv⟩
  · rename_i hk
    rw [get?_resourceTable h]
    constructor
    · rintro ⟨x, hx, hxk, hv⟩
      rcases (hmem x).mp hx with rfl | ⟨hold, hne⟩
      · exact absurd hxk hk
      · exact ⟨x, hold, hxk, (hview x hold hne).symm.trans hv⟩
    · rintro ⟨x, hx, hxk, hv⟩
      have hne : x.path.slot ≠ new.path.slot := fun he => hk (he.symm.trans hxk)
      exact ⟨x, (hmem x).mpr (Or.inr ⟨hx, hne⟩), hxk, (hview x hx hne).trans hv⟩

/-- An entry leaves the table, and all others stay. -/
theorem resourceTable_erase {hub hub' : Hub} (h : hub.Filed) (h' : hub'.Filed)
    {slot : List String}
    (hmem : ∀ x, x ∈ hub'.published ↔ x ∈ hub.published ∧ x.path.slot ≠ slot)
    (hview : ∀ x ∈ hub.published, x.path.slot ≠ slot → hub'.viewOf x = hub.viewOf x) :
    hub'.resourceTable = hub.resourceTable.erase slot := by
  apply SortedMap.ext_get?
  intro k
  rw [SortedMap.get?_erase]
  apply Option.ext
  intro v
  rw [get?_resourceTable h']
  split
  · rename_i hk
    constructor
    · rintro ⟨x, hx, hxk, _⟩
      exact absurd (hxk.trans hk.symm) ((hmem x).mp hx).2
    · intro hv
      cases hv
  · rename_i hk
    rw [get?_resourceTable h]
    constructor
    · rintro ⟨x, hx, hxk, hv⟩
      obtain ⟨hold, hne⟩ := (hmem x).mp hx
      exact ⟨x, hold, hxk, (hview x hold hne).symm.trans hv⟩
    · rintro ⟨x, hx, hxk, hv⟩
      have hne : x.path.slot ≠ slot := fun he => hk (he.symm.trans hxk)
      exact ⟨x, (hmem x).mpr ⟨hx, hne⟩, hxk, (hview x hx hne).trans hv⟩

theorem viewOf_modifyRecord {hub : Hub} {h x : Handle} (f : ResourceRecord → ResourceRecord)
    (hne : x.serial ≠ h.serial) : (hub.modifyRecord h f).viewOf x = hub.viewOf x := by
  unfold viewOf record modifyRecord
  dsimp only
  rw [SortedMap.get?_modify, if_neg (fun he => hne he.symm)]

/-- Handles in different slots of the table have different records. -/
theorem Filed.serial_ne {hub : Hub} (h : hub.Filed) {x y : Handle} (hx : x ∈ hub.published)
    (hy : y ∈ hub.published) (hne : x.path.slot ≠ y.path.slot) : x.serial ≠ y.serial :=
  fun he => hne (congrArg (fun z : Handle => z.path.slot) (h.distinct hx hy he))

/-! ## Published handles behind a change of one session -/

theorem mem_published_split {hub hub' : Hub} (id : Nat)
    (hother : ∀ id', id' ≠ id → hub'.session id' = hub.session id') {x : Handle} :
    x ∈ hub'.published ↔
      (∃ s group name, hub'.session id = some s ∧ s.find? group name = some x) ∨
      ∃ id' s group name, id' ≠ id ∧ hub.session id' = some s ∧
        s.find? group name = some x := by
  rw [mem_published_iff]
  constructor
  · rintro ⟨id', s, group, name, hs, hf⟩
    by_cases hid : id' = id
    · subst hid
      exact Or.inl ⟨s, group, name, hs, hf⟩
    · rw [hother id' hid] at hs
      exact Or.inr ⟨id', s, group, name, hid, hs, hf⟩
  · rintro (⟨s, group, name, hs, hf⟩ | ⟨id', s, group, name, hid, hs, hf⟩)
    · exact ⟨id, s, group, name, hs, hf⟩
    · rw [← hother id' hid] at hs
      exact ⟨id', s, group, name, hs, hf⟩

theorem slot_of_find? {hub : Hub} (h : hub.Filed) {id : Nat} {s : ExporterSession}
    (hs : hub.session id = some s) {group name : String} {x : Handle}
    (hf : s.find? group name = some x) : x.path.slot = [s.name, group, name] := by
  obtain ⟨he, hg, hn⟩ := h.paths hs hf
  unfold ResourcePath.slot
  rw [he, hg, hn]

/-- Behind a change under one group and name of a session, the handles in other slots are the
same. -/
theorem mem_published_of_session {hub hub' : Hub} (h : hub.Filed) {id : Nat}
    {s s' : ExporterSession} {group name : String} (hs : hub.session id = some s)
    (hs' : hub'.session id = some s')
    (hother : ∀ id', id' ≠ id → hub'.session id' = hub.session id')
    (hfind : ∀ g n, ¬ (group = g ∧ name = n) → s'.find? g n = s.find? g n) {x : Handle} :
    x ∈ hub'.published ↔ s'.find? group name = some x ∨
      x ∈ hub.published ∧ x.path.slot ≠ [s.name, group, name] := by
  rw [mem_published_split id hother]
  constructor
  · rintro (⟨t, g, n, ht, hf⟩ | ⟨id', t, g, n, hid, ht, hf⟩)
    · rw [hs'] at ht
      cases ht
      by_cases hgn : group = g ∧ name = n
      · obtain ⟨rfl, rfl⟩ := hgn
        exact Or.inl hf
      · rw [hfind g n hgn] at hf
        refine Or.inr ⟨mem_published_iff.mpr ⟨id, s, g, n, hs, hf⟩, ?_⟩
        rw [slot_of_find? h hs hf]
        intro he
        simp only [List.cons.injEq, true_and, and_true] at he
        exact hgn ⟨he.1.symm, he.2.symm⟩
    · refine Or.inr ⟨mem_published_iff.mpr ⟨id', t, g, n, ht, hf⟩, ?_⟩
      rw [slot_of_find? h ht hf]
      intro he
      exact hid (h.names ht hs (List.cons.inj he).1)
  · rintro (hf | ⟨hx, hne⟩)
    · exact Or.inl ⟨s', group, name, hs', hf⟩
    · obtain ⟨id', t, g, n, ht, hf⟩ := mem_published_iff.mp hx
      by_cases hid : id' = id
      · subst hid
        rw [hs] at ht
        cases ht
        have hgn : ¬ (group = g ∧ name = n) := by
          rintro ⟨rfl, rfl⟩
          exact hne (slot_of_find? h hs hf)
        exact Or.inl ⟨s', g, n, hs', by rw [hfind g n hgn]; exact hf⟩
      · exact Or.inr ⟨id', t, g, n, hid, ht, hf⟩

/-! ## Announced changes -/

/-- A change of the table is told to the subscribers as it is. -/
structure Announced (u : Update) (hub hub' : Hub) : Prop where
  table : hub'.resourceTable = u.intoResources hub.resourceTable
  clients : hub'.clients = hub.clients.mapValues (fun _ c => c.tellResources u)

theorem session_withdraw {hub : Hub} (id id' : Nat) {s₀ : ExporterSession} {group name : String}
    {x : Handle} (hf₀ : s₀.find? group name = some x) :
    (hub.withdraw id s₀ group name).session id' =
      if id = id' then (hub.session id').map (fun s => s.remove group name)
      else hub.session id' := by
  unfold withdraw
  rw [hf₀]
  exact session_modifySession (hub.orphanIfHeld x) id id' _

/-- A withdrawal takes one handle out of the tree. -/
theorem mem_published_withdraw {hub : Hub} (h : hub.Filed) {id : Nat} {s s₀ : ExporterSession}
    {group name : String} {x : Handle} (hs : hub.session id = some s)
    (hf : s.find? group name = some x) (hf₀ : s₀.find? group name = some x) {y : Handle} :
    y ∈ (hub.withdraw id s₀ group name).published ↔
      y ∈ hub.published ∧ y.path.slot ≠ x.path.slot := by
  have hs' : (hub.withdraw id s₀ group name).session id = some (s.remove group name) := by
    rw [session_withdraw id id hf₀, if_pos rfl, hs]
    rfl
  have hother : ∀ id', id' ≠ id →
      (hub.withdraw id s₀ group name).session id' = hub.session id' := by
    intro id' hid
    rw [session_withdraw id id' hf₀, if_neg (fun he => hid he.symm)]
  rw [mem_published_of_session h hs hs' hother, slot_of_find? h hs hf]
  · rw [ExporterSession.find?_remove, if_pos ⟨rfl, rfl⟩]
    simp
  · intro g n hgn
    rw [ExporterSession.find?_remove, if_neg hgn]

theorem records_withdraw {hub : Hub} (id : Nat) {s₀ : ExporterSession} {group name : String}
    {x : Handle} (hf₀ : s₀.find? group name = some x) :
    (hub.withdraw id s₀ group name).records = (hub.orphanIfHeld x).records := by
  unfold withdraw
  rw [hf₀]
  rfl

/-- A withdrawal is announced. The exporter may have lost other resources in between. -/
theorem announced_withdraw {hub : Hub} (h : hub.Filed) {id : Nat} {s s₀ : ExporterSession}
    {group name : String} {x : Handle} (hs : hub.session id = some s)
    (hf : s.find? group name = some x) (hf₀ : s₀.find? group name = some x) :
    Announced (.deletedResource x.path) hub (hub.withdraw id s₀ group name) := by
  have hfiled : (hub.withdraw id s₀ group name).Filed := h.shrink (shrinks_withdraw ..)
  have hx : x ∈ hub.published := mem_published_iff.mpr ⟨id, s, group, name, hs, hf⟩
  refine ⟨?_, ?_⟩
  · refine resourceTable_erase h hfiled (fun y => mem_published_withdraw h hs hf hf₀) ?_
    intro y hy hne
    unfold viewOf record
    rw [records_withdraw id hf₀]
    exact viewOf_modifyRecord _ (h.serial_ne hy hx hne)
  · unfold withdraw
    rw [hf₀]
    rfl

theorem published_of_links {hub hub' : Hub} (h : hub'.links = hub.links) :
    hub'.published = hub.published := by
  unfold published sessions
  rw [h]

theorem session_of_links {hub hub' : Hub} (h : hub'.links = hub.links) (id : Nat) :
    hub'.session id = hub.session id := by
  unfold session link
  rw [h]

theorem session_publishNew (hub : Hub) (id : Nat) (s : ExporterSession) (group name : String)
    (r : ResourceRecord) (id' : Nat) : (hub.publishNew id s group name r).session id' =
      if id = id' then (hub.session id').map (fun s' =>
        s'.file group name ⟨hub.records.size, ⟨s.name, group, r.cls, name⟩⟩)
      else hub.session id' :=
  session_modifySession { hub with records := hub.records.insert hub.records.size r } id id' _

/-- A new handle takes its slot of the tree, and all others stay. -/
theorem mem_published_publishNew {hub : Hub} (h : hub.Filed) {id : Nat} {s : ExporterSession}
    (hs : hub.session id = some s) (group name : String) (r : ResourceRecord) {x : Handle} :
    x ∈ (hub.publishNew id s group name r).published ↔
      x = ⟨hub.records.size, ⟨s.name, group, r.cls, name⟩⟩ ∨
        x ∈ hub.published ∧ x.path.slot ≠ [s.name, group, name] := by
  have hsession := session_publishNew hub id s group name r
  generalize (⟨hub.records.size, ⟨s.name, group, r.cls, name⟩⟩ : Handle) = new at hsession ⊢
  have hs' : (hub.publishNew id s group name r).session id = some (s.file group name new) := by
    rw [hsession, if_pos rfl, hs]
    rfl
  have hother : ∀ id', id' ≠ id →
      (hub.publishNew id s group name r).session id' = hub.session id' := by
    intro id' hid
    rw [hsession, if_neg (fun he => hid he.symm)]
  rw [mem_published_of_session h hs hs' hother]
  · rw [ExporterSession.find?_file, if_pos ⟨rfl, rfl⟩, Option.some.injEq]
    simp only [eq_comm]
  · intro g n hgn
    rw [ExporterSession.find?_file, if_neg hgn]

/-- A new handle is announced, also where its slot has been given up just before. -/
theorem announced_publishNew {hub hub₁ : Hub} (h : hub.Filed) (h₁ : hub₁.Filed)
    (hlinks : hub₁.links = hub.links) (hclients : hub₁.clients = hub.clients) {id : Nat}
    {s : ExporterSession} {group name : String} (hs : hub.session id = some s)
    (hview : ∀ x ∈ hub.published, x.path.slot ≠ [s.name, group, name] →
      hub₁.viewOf x = hub.viewOf x) (r : ResourceRecord) :
    Announced (.resource (r.view ⟨s.name, group, r.cls, name⟩)) hub
      (hub₁.publishNew id s group name r) := by
  have hpublished : hub₁.published = hub.published := published_of_links hlinks
  have hs₁ : hub₁.session id = some s := (session_of_links hlinks id).trans hs
  have hfiled : (hub₁.publishNew id s group name r).Filed := h₁.publishNew hs₁ group name r
  have hmem := fun x => mem_published_publishNew h₁ hs₁ group name r (x := x)
  have hrecord : ∀ x, (hub₁.publishNew id s group name r).record x =
      ((hub₁.records.insert hub₁.records.size r).get? x.serial).getD noRecord := fun _ => rfl
  have htold : (hub₁.publishNew id s group name r).clients =
      hub₁.clients.mapValues (fun _ c => c.tellResources
        (.resource ((hub₁.publishNew id s group name r).viewOf
          ⟨hub₁.records.size, ⟨s.name, group, r.cls, name⟩⟩))) := rfl
  have hviewNew : (hub₁.publishNew id s group name r).viewOf
      ⟨hub₁.records.size, ⟨s.name, group, r.cls, name⟩⟩ =
        r.view ⟨s.name, group, r.cls, name⟩ := by
    unfold viewOf
    rw [hrecord, SortedMap.get?_insert, if_pos rfl]
    rfl
  refine ⟨?_, ?_⟩
  · rw [← hviewNew]
    refine resourceTable_insert h hfiled (fun x => by rw [hmem x, hpublished]; rfl) ?_
    intro x hx hne
    rw [← hview x hx hne]
    rw [← hpublished] at hx
    have hlt := h₁.serials hx
    unfold viewOf
    rw [hrecord, SortedMap.get?_insert, if_neg (by omega)]
    rfl
  · rw [htold, hclients, hviewNew]

/-- A report of a class is announced. -/
theorem announced_publish {hub : Hub} (h : hub.Filed) {id : Nat} {s : ExporterSession}
    (hs : hub.session id = some s) (group name : String) (r : ResourceRecord) :
    ∃ u, Announced u hub (hub.publish id s group name r) := by
  unfold publish
  split
  · exact ⟨_, announced_publishNew h h rfl rfl hs (fun _ _ _ => rfl) r⟩
  · rename_i x hf
    have hx : x ∈ hub.published := mem_published_iff.mpr ⟨id, s, group, name, hs, hf⟩
    have hslot : x.path.slot = [s.name, group, name] := slot_of_find? h hs hf
    split
    · refine ⟨.resource ((hub.modifyRecord x (fun old => old.merge r)).viewOf x), ?_, rfl⟩
      have hfiled := h.shrink (shrinks_modifyRecord hub x (fun old => old.merge r))
      refine resourceTable_insert h (hfiled.shrink (.of_eq rfl rfl)) ?_ ?_
      · intro y
        constructor
        · intro hy
          by_cases hyx : y.path.slot = x.path.slot
          · exact Or.inl (h.eq_of_slot hy hx hyx)
          · exact Or.inr ⟨hy, hyx⟩
        · rintro (rfl | ⟨hy, _⟩)
          · exact hx
          · exact hy
      · intro y hy hne
        exact viewOf_modifyRecord _ (h.serial_ne hy hx hne)
    · have hfiled : (hub.orphanIfHeld x).Filed := h.shrink (shrinks_modifyRecord hub x _)
      refine ⟨_, announced_publishNew h hfiled rfl rfl hs ?_ r⟩
      intro y hy hne
      exact viewOf_modifyRecord _ (h.serial_ne hy hx (by rw [hslot]; exact hne))

end Hub

end BoardFarm
