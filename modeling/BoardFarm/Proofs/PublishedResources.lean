import BoardFarm.Proofs.Performance
import Mathlib.Data.List.Nodup

/-!
# Published resources

Exporters come and go and report what they like. Still every published handle is filed under
the exporter, the group and the name of its path, in the session of the only exporter of that
name, and no two published handles share a record.

* `Hub.Filed`: how the published handles are filed.
* `Hub.mem_published_iff`: the published handles are the filed ones.
* `Hub.Filed.nodup_published`: no path is published twice.
* `Hub.Passage.filed`: all of this survives every passage.
-/

namespace BoardFarm

namespace ExporterSession

theorem find?_file (s : ExporterSession) (group name group' name' : String) (h : Handle) :
    (s.file group name h).find? group' name' =
      if group = group' ∧ name = name' then some h else s.find? group' name' := by
  unfold file find?
  dsimp only
  rw [SortedMap.get?_insert]
  by_cases hg : group = group'
  · subst hg
    simp only [if_true, Option.bind_some, true_and]
    rw [SortedMap.get?_insert]
    cases s.tree.get? group <;> rfl
  · simp [hg]

theorem find?_remove (s : ExporterSession) (group name group' name' : String) :
    (s.remove group name).find? group' name' =
      if group = group' ∧ name = name' then none else s.find? group' name' := by
  have hget : ∀ named : SortedMap String Handle,
      named = ((s.tree.get? group).getD SortedMap.empty).erase name →
      named.get? name' = if name = name' then none else s.find? group name' := by
    rintro named rfl
    rw [SortedMap.get?_erase]
    unfold find?
    cases s.tree.get? group <;> rfl
  unfold remove
  dsimp only
  generalize hn : ((s.tree.get? group).getD SortedMap.empty).erase name = named at hget
  have hnamed := hget named rfl
  by_cases hg : group = group'
  · subst hg
    unfold find? at hnamed ⊢
    simp only [true_and]
    rw [← hnamed]
    split
    · rename_i he
      have hempty : named = SortedMap.empty :=
        SortedMap.ext_toList (List.isEmpty_iff.mp he)
      rw [SortedMap.get?_erase, if_pos rfl, hempty]
      rfl
    · rw [SortedMap.get?_insert, if_pos rfl]
      rfl
  · unfold find?
    simp only [hg, false_and, if_false]
    split
    · rw [SortedMap.get?_erase, if_neg hg]
    · rw [SortedMap.get?_insert, if_neg hg]

theorem mem_handles_iff {s : ExporterSession} {h : Handle} :
    h ∈ s.handles ↔ ∃ group name, s.find? group name = some h := by
  unfold handles find?
  rw [List.mem_flatMap]
  constructor
  · rintro ⟨named, hnamed, hh⟩
    obtain ⟨group, hg⟩ := SortedMap.mem_values_iff.mp hnamed
    obtain ⟨name, hn⟩ := SortedMap.mem_values_iff.mp hh
    exact ⟨group, name, by simp [hg, hn]⟩
  · rintro ⟨group, name, hf⟩
    obtain ⟨named, hg, hn⟩ := Option.bind_eq_some_iff.mp hf
    exact ⟨named, SortedMap.mem_values_iff.mpr ⟨group, hg⟩,
      SortedMap.mem_values_iff.mpr ⟨name, hn⟩⟩

/-- Handles that are filed under the groups and the names of their paths have different
paths. -/
theorem nodup_handles {s : ExporterSession}
    (hs : ∀ {group name : String} {h : Handle}, s.find? group name = some h →
      h.path.group = group ∧ h.path.name = name) : (s.handles.map Handle.path).Nodup := by
  have hentry : ∀ group named, (group, named) ∈ s.tree.toList → ∀ name h,
      (name, h) ∈ named.toList → h.path.group = group ∧ h.path.name = name := by
    intro group named hg name h hn
    apply hs
    unfold find?
    rw [SortedMap.mem_toList_iff.mp hg]
    exact SortedMap.mem_toList_iff.mp hn
  have hflat : s.handles.map Handle.path =
      s.tree.toList.flatMap (fun e => e.2.values.map Handle.path) := by
    unfold handles SortedMap.values
    rw [List.map_flatMap, List.flatMap_map]
  rw [hflat, List.nodup_flatMap]
  constructor
  · rintro ⟨group, named⟩ hg
    have hnames : (named.values.map Handle.path).map ResourcePath.name = named.keys := by
      unfold SortedMap.values SortedMap.keys
      rw [List.map_map, List.map_map]
      apply List.map_congr_left
      rintro ⟨name, h⟩ hn
      exact (hentry group named hg name h hn).2
    exact .of_map ResourcePath.name (hnames ▸ named.keys_nodup)
  · have hgroup : ∀ e ∈ s.tree.toList, ∀ path ∈ e.2.values.map Handle.path,
        path.group = e.1 := by
      rintro ⟨group, named⟩ hg path hp
      obtain ⟨h, hh, rfl⟩ := List.mem_map.mp hp
      obtain ⟨⟨name, h'⟩, hn, rfl⟩ := List.mem_map.mp hh
      exact (hentry group named hg name h' hn).1
    refine s.tree.sorted.imp_of_mem ?_
    intro e e' he he' hlt path hp hp'
    have hne := KeyOrder.ne_of_lt hlt
    exact hne ((hgroup e he path hp).symm.trans (hgroup e' he' path hp'))

end ExporterSession

namespace Link

/-- A change of links by which a session, and the phase of a connected link, stay as they are, or
the session ends. -/
def KeepsOrEnds (f : Link → Link) : Prop :=
  ∀ l, (f l).session = none ∨ (f l).session = l.session ∧
    (l.phase = .connected → (f l).phase = .connected)

theorem deliver_session (l : Link) :
    l.deliver.2.session = l.session ∧ (l.phase = .connected → l.deliver.2.phase = .connected) := by
  unfold deliver
  split
  · exact ⟨rfl, fun hc => hc⟩
  · split
    · exact ⟨rfl, fun hc => hc⟩
    · split
      · exact ⟨rfl, fun hc => hc⟩
      · split
        · exact ⟨rfl, fun hc => hc⟩
        · split
          · rename_i he
            refine ⟨rfl, fun hc => ?_⟩
            rw [he] at hc
            cases hc
          · exact ⟨rfl, fun hc => hc⟩

theorem keepsOrEnds_deliver : KeepsOrEnds (fun l => l.deliver.2) :=
  fun l => Or.inr (deliver_session l)

theorem keepsOrEnds_finish :
    KeepsOrEnds (fun l => if l.phase = .connected then l.finish else l) := by
  intro l
  dsimp only
  split
  · exact Or.inl rfl
  · exact Or.inr ⟨rfl, fun hc => hc⟩

theorem keepsOrEnds_close : KeepsOrEnds close := fun _ => Or.inl rfl

end Link

namespace Hub

theorem session_eq_some_iff {hub : Hub} {id : Nat} {s : ExporterSession} :
    hub.session id = some s ↔ ∃ l, hub.link id = some l ∧ l.session = some s :=
  Option.bind_eq_some_iff

theorem session_of_link {hub : Hub} {id : Nat} {l : Link} (hl : hub.link id = some l) :
    hub.session id = l.session := by
  unfold session
  rw [hl]
  rfl

theorem link_modifyLink (hub : Hub) (id id' : Nat) (f : Link → Link) :
    (hub.modifyLink id f).link id' =
      if id = id' then (hub.link id').map f else hub.link id' :=
  SortedMap.get?_modify ..

theorem session_modifyLink (hub : Hub) (id id' : Nat) (f : Link → Link) :
    (hub.modifyLink id f).session id' =
      if id = id' then (hub.link id').bind (fun l => (f l).session) else hub.session id' := by
  unfold session
  rw [link_modifyLink]
  split
  · cases hub.link id' <;> rfl
  · rfl

theorem session_modifySession (hub : Hub) (id id' : Nat)
    (f : ExporterSession → ExporterSession) :
    (hub.modifySession id f).session id' =
      if id = id' then (hub.session id').map f else hub.session id' := by
  unfold modifySession
  rw [session_modifyLink]
  unfold session
  split
  · cases hub.link id' <;> rfl
  · rfl

theorem mem_sessions_iff {hub : Hub} {id : Nat} {s : ExporterSession} :
    (id, s) ∈ hub.sessions ↔ hub.session id = some s := by
  unfold sessions
  rw [mem_stableSort, List.mem_filterMap, session_eq_some_iff]
  constructor
  · rintro ⟨⟨id', l⟩, hl, hs⟩
    obtain ⟨s', hs', he⟩ := Option.map_eq_some_iff.mp hs
    cases he
    exact ⟨l, SortedMap.mem_toList_iff.mp hl, hs'⟩
  · rintro ⟨l, hl, hs⟩
    exact ⟨(id, l), SortedMap.mem_toList_iff.mpr hl, by simp [hs]⟩

/-- The published handles are the filed ones. -/
theorem mem_published_iff {hub : Hub} {h : Handle} :
    h ∈ hub.published ↔
      ∃ id s group name, hub.session id = some s ∧ s.find? group name = some h := by
  unfold published
  rw [List.mem_flatMap]
  constructor
  · rintro ⟨⟨id, s⟩, hs, hh⟩
    obtain ⟨group, name, hf⟩ := ExporterSession.mem_handles_iff.mp hh
    exact ⟨id, s, group, name, mem_sessions_iff.mp hs, hf⟩
  · rintro ⟨id, s, group, name, hs, hf⟩
    exact ⟨(id, s), mem_sessions_iff.mpr hs, ExporterSession.mem_handles_iff.mpr ⟨group, name, hf⟩⟩

theorem linkOf_isSome_iff {hub : Hub} {name : String} :
    (hub.linkOf name).isSome = true ↔ ∃ id s, hub.session id = some s ∧ s.name = name := by
  unfold linkOf
  rw [Option.isSome_map, List.find?_isSome]
  constructor
  · rintro ⟨⟨id, s⟩, hs, hname⟩
    exact ⟨id, s, mem_sessions_iff.mp hs, beq_iff_eq.mp hname⟩
  · rintro ⟨id, s, hs, hname⟩
    exact ⟨(id, s), mem_sessions_iff.mpr hs, beq_iff_eq.mpr hname⟩

theorem linkOf_isNone {hub : Hub} {name : String} (h : (hub.linkOf name).isSome = false)
    {id : Nat} {s : ExporterSession} (hs : hub.session id = some s) : s.name ≠ name := by
  intro he
  rw [linkOf_isSome_iff.mpr ⟨id, s, hs, he⟩] at h
  cases h

/-! ## The invariant -/

/-- Links and records are numbered, registered exporters are connected and have different
names, and every published handle has the path under which it is filed and a record that it
shares with no other published handle. -/
structure Filed (hub : Hub) : Prop where
  links : hub.links.Numbered
  records : hub.records.Numbered
  connected : ∀ {id : Nat} {l : Link}, hub.link id = some l → l.session.isSome →
    l.phase = .connected
  names : ∀ {id id' : Nat} {s s' : ExporterSession}, hub.session id = some s →
    hub.session id' = some s' → s.name = s'.name → id = id'
  paths : ∀ {id : Nat} {s : ExporterSession} {group name : String} {h : Handle},
    hub.session id = some s → s.find? group name = some h →
    h.path.exporter = s.name ∧ h.path.group = group ∧ h.path.name = name
  serials : ∀ {h : Handle}, h ∈ hub.published → h.serial < hub.records.size
  distinct : ∀ {h h' : Handle}, h ∈ hub.published → h' ∈ hub.published →
    h.serial = h'.serial → h = h'

theorem filed_new (settings : HubSettings) (places : SortedMap String Place) :
    (new settings places).Filed := by
  have hlink : ∀ id, (new settings places).link id = none := fun _ => rfl
  have hsession : ∀ id, (new settings places).session id = none := fun _ => rfl
  refine ⟨SortedMap.numbered_empty, SortedMap.numbered_empty, ?_, ?_, ?_, ?_, ?_⟩
  · intro id l hl
    rw [hlink] at hl
    cases hl
  · intro id id' s s' hs
    rw [hsession] at hs
    cases hs
  · intro id s group name h hs
    rw [hsession] at hs
    cases hs
  · intro h hh
    simp [published, sessions, new, stableSort] at hh
  · intro h h' hh
    simp [published, sessions, new, stableSort] at hh

/-! ## Changes that publish nothing -/

/-- No session and no handle is new, and a connected link with a session was so before. -/
structure Shrinks (hub hub' : Hub) : Prop where
  links : hub.links.Numbered → hub'.links.Numbered
  records : hub.records.Numbered → hub'.records.Numbered
  size : hub.records.size ≤ hub'.records.size
  session : ∀ {id : Nat} {l' : Link} {s' : ExporterSession}, hub'.link id = some l' →
    l'.session = some s' → ∃ l s, hub.link id = some l ∧ l.session = some s ∧
      (l.phase = .connected → l'.phase = .connected) ∧ s'.name = s.name ∧
      ∀ group name h, s'.find? group name = some h → s.find? group name = some h

theorem Shrinks.of_eq {hub hub' : Hub} (hl : hub'.links = hub.links)
    (hr : hub'.records = hub.records) : Shrinks hub hub' := by
  refine ⟨fun h => hl ▸ h, fun h => hr ▸ h, Nat.le_of_eq (by rw [hr]), ?_⟩
  intro id l' s' hl' hs'
  unfold link at hl' ⊢
  rw [hl] at hl'
  exact ⟨l', s', hl', hs', fun hc => hc, rfl, fun _ _ _ hf => hf⟩

theorem Shrinks.refl (hub : Hub) : Shrinks hub hub := .of_eq rfl rfl

theorem Shrinks.trans {hub hub₁ hub₂ : Hub} (h : Shrinks hub hub₁) (h' : Shrinks hub₁ hub₂) :
    Shrinks hub hub₂ := by
  refine ⟨fun hl => h'.links (h.links hl), fun hr => h'.records (h.records hr),
    Nat.le_trans h.size h'.size, ?_⟩
  intro id l₂ s₂ hl₂ hs₂
  obtain ⟨l₁, s₁, hl₁, hs₁, hphase₁, hname₁, hfind₁⟩ := h'.session hl₂ hs₂
  obtain ⟨l, s, hl, hs, hphase, hname, hfind⟩ := h.session hl₁ hs₁
  exact ⟨l, s, hl, hs, fun hc => hphase₁ (hphase hc), hname₁.trans hname,
    fun group name h hf => hfind group name h (hfind₁ group name h hf)⟩

theorem Shrinks.published {hub hub' : Hub} (h : Shrinks hub hub') {handle : Handle}
    (hh : handle ∈ hub'.published) : handle ∈ hub.published := by
  obtain ⟨id, s', group, name, hs', hf⟩ := mem_published_iff.mp hh
  obtain ⟨l', hl', hls'⟩ := session_eq_some_iff.mp hs'
  obtain ⟨l, s, hl, hs, _, _, hfind⟩ := h.session hl' hls'
  exact mem_published_iff.mpr ⟨id, s, group, name, session_eq_some_iff.mpr ⟨l, hl, hs⟩,
    hfind group name handle hf⟩

theorem Filed.shrink {hub hub' : Hub} (h : hub.Filed) (hs : Shrinks hub hub') : hub'.Filed := by
  refine ⟨hs.links h.links, hs.records h.records, ?_, ?_, ?_, ?_, ?_⟩
  · intro id l' hl' hsome
    obtain ⟨s', hs'⟩ := Option.isSome_iff_exists.mp hsome
    obtain ⟨l, s, hl, hls, hphase, _⟩ := hs.session hl' hs'
    exact hphase (h.connected hl (by rw [hls]; rfl))
  · intro id id' s₁ s₂ h₁ h₂ he
    obtain ⟨l₁, hl₁, hs₁⟩ := session_eq_some_iff.mp h₁
    obtain ⟨l₂, hl₂, hs₂⟩ := session_eq_some_iff.mp h₂
    obtain ⟨k₁, t₁, hk₁, ht₁, _, hn₁, _⟩ := hs.session hl₁ hs₁
    obtain ⟨k₂, t₂, hk₂, ht₂, _, hn₂, _⟩ := hs.session hl₂ hs₂
    refine h.names (session_eq_some_iff.mpr ⟨k₁, hk₁, ht₁⟩)
      (session_eq_some_iff.mpr ⟨k₂, hk₂, ht₂⟩) ?_
    rw [← hn₁, ← hn₂]
    exact he
  · intro id s' group name handle hs' hf
    obtain ⟨l', hl', hls'⟩ := session_eq_some_iff.mp hs'
    obtain ⟨l, s, hl, hls, _, hname, hfind⟩ := hs.session hl' hls'
    rw [hname]
    exact h.paths (session_eq_some_iff.mpr ⟨l, hl, hls⟩) (hfind group name handle hf)
  · intro handle hh
    exact Nat.lt_of_lt_of_le (h.serials (hs.published hh)) hs.size
  · intro h₁ h₂ hh₁ hh₂ he
    exact h.distinct (hs.published hh₁) (hs.published hh₂) he

theorem shrinks_modifyLink {hub : Hub} {id : Nat} {f : Link → Link}
    (hf : ∀ l s', hub.link id = some l → (f l).session = some s' → ∃ s, l.session = some s ∧
      (l.phase = .connected → (f l).phase = .connected) ∧ s'.name = s.name ∧
      ∀ group name h, s'.find? group name = some h → s.find? group name = some h) :
    Shrinks hub (hub.modifyLink id f) := by
  refine ⟨fun h => h.mapValues _, fun h => h, Nat.le_refl _, ?_⟩
  intro id' l' s' hl' hs'
  rw [link_modifyLink] at hl'
  split at hl'
  · rename_i he
    subst he
    obtain ⟨l, hl, rfl⟩ := Option.map_eq_some_iff.mp hl'
    obtain ⟨s, hs, hrest⟩ := hf l s' hl hs'
    exact ⟨l, s, hl, hs, hrest⟩
  · exact ⟨l', s', hl', hs', fun h => h, rfl, fun _ _ _ h => h⟩

theorem shrinks_modifyLink_of {hub : Hub} {id : Nat} {f : Link → Link}
    (hf : Link.KeepsOrEnds f) : Shrinks hub (hub.modifyLink id f) := by
  apply shrinks_modifyLink
  intro l s' _ hs'
  rcases hf l with h | ⟨h, hphase⟩
  · rw [h] at hs'
    cases hs'
  · rw [h] at hs'
    exact ⟨s', hs', hphase, rfl, fun _ _ _ hh => hh⟩

theorem shrinks_modifyRecord (hub : Hub) (h : Handle) (f : ResourceRecord → ResourceRecord) :
    Shrinks hub (hub.modifyRecord h f) := by
  refine ⟨fun hl => hl, fun hr => hr.mapValues _, ?_, ?_⟩
  · exact Nat.le_of_eq (SortedMap.size_mapValues ..).symm
  · intro id l' s' hl' hs'
    exact ⟨l', s', hl', hs', fun hc => hc, rfl, fun _ _ _ hf => hf⟩

theorem shrinks_withdraw (hub : Hub) (id : Nat) (s : ExporterSession) (group name : String) :
    Shrinks hub (hub.withdraw id s group name) := by
  unfold withdraw
  split
  · exact .refl hub
  · rename_i h _
    have hremove : Shrinks (hub.orphanIfHeld h)
        ((hub.orphanIfHeld h).modifySession id (fun s => s.remove group name)) := by
      apply shrinks_modifyLink
      intro l s' _ hs'
      obtain ⟨t, ht, rfl⟩ := Option.map_eq_some_iff.mp hs'
      refine ⟨t, ht, fun hc => hc, rfl, ?_⟩
      intro group' name' h' hf
      rw [ExporterSession.find?_remove] at hf
      split at hf
      · cases hf
      · exact hf
    exact ((shrinks_modifyRecord hub h _).trans hremove).trans (.of_eq rfl rfl)

theorem shrinks_withdrawAll (hub : Hub) (id : Nat) : Shrinks hub (hub.withdrawAll id) := by
  unfold withdrawAll
  split
  · exact .refl hub
  · rename_i s _
    have hfold : Shrinks hub (s.handles.foldl
        (fun hub h => hub.withdraw id s h.path.group h.path.name) hub) := by
      refine List.foldlRecOn _ _ (motive := Shrinks hub) (.refl hub) ?_
      exact fun hub₁ h₁ h _ => h₁.trans (shrinks_withdraw hub₁ id s _ _)
    exact hfold.trans (.of_eq rfl rfl)

theorem shrinks_disconnect {hub : Hub} {id : Nat} {finish : Link → Link}
    (hf : Link.KeepsOrEnds finish) : Shrinks hub (hub.disconnect id finish) := by
  unfold disconnect
  split
  · exact .refl hub
  · split
    · exact (shrinks_withdrawAll hub id).trans (shrinks_modifyLink_of hf)
    · exact shrinks_modifyLink_of hf

/-! ## Changes of one session -/

/-- A session may be replaced by one whose name no other session has, with the same handles or
a handle that has a new record. -/
theorem Filed.replaceSession {hub hub' : Hub} (h : hub.Filed) (id : Nat) (s₀ : ExporterSession)
    (fresh : Handle) (hlinks : hub'.links.Numbered) (hrecords : hub'.records.Numbered)
    (hsize : hub.records.size ≤ hub'.records.size) (hfresh : fresh.serial = hub.records.size)
    (hlink : ∀ id' l, hub'.link id' = some l → l.session.isSome →
      id' = id ∧ l.phase = .connected ∧ l.session = some s₀ ∨ id' ≠ id ∧ hub.link id' = some l)
    (hname : ∀ id' s, hub.session id' = some s → id' ≠ id → s.name ≠ s₀.name)
    (hfind : ∀ group name handle, s₀.find? group name = some handle →
      (handle.path.exporter = s₀.name ∧ handle.path.group = group ∧ handle.path.name = name) ∧
      (handle ∈ hub.published ∨ handle = fresh ∧ fresh.serial < hub'.records.size)) :
    hub'.Filed := by
  have hsession : ∀ id' s, hub'.session id' = some s →
      id' = id ∧ s = s₀ ∨ id' ≠ id ∧ hub.session id' = some s := by
    intro id' s hs
    obtain ⟨l, hl, hls⟩ := session_eq_some_iff.mp hs
    rcases hlink id' l hl (by rw [hls]; rfl) with ⟨hid, _, hs₀⟩ | ⟨hid, hl'⟩
    · rw [hls] at hs₀
      cases hs₀
      exact Or.inl ⟨hid, rfl⟩
    · exact Or.inr ⟨hid, session_eq_some_iff.mpr ⟨l, hl', hls⟩⟩
  have hpublished : ∀ handle, handle ∈ hub'.published →
      handle ∈ hub.published ∨ handle = fresh ∧ fresh.serial < hub'.records.size := by
    intro handle hh
    obtain ⟨id', s, group, name, hs, hf⟩ := mem_published_iff.mp hh
    rcases hsession id' s hs with ⟨_, rfl⟩ | ⟨_, hs'⟩
    · exact (hfind group name handle hf).2
    · exact Or.inl (mem_published_iff.mpr ⟨id', s, group, name, hs', hf⟩)
  refine ⟨hlinks, hrecords, ?_, ?_, ?_, ?_, ?_⟩
  · intro id' l hl hsome
    rcases hlink id' l hl hsome with ⟨_, hphase, _⟩ | ⟨_, hl'⟩
    · exact hphase
    · exact h.connected hl' hsome
  · -- either session may be the new one, whose name no other session has
    intro id₁ id₂ s₁ s₂ h₁ h₂ he
    rcases hsession id₁ s₁ h₁ with ⟨rfl, rfl⟩ | ⟨hne₁, h₁'⟩
    · rcases hsession id₂ s₂ h₂ with ⟨rfl, rfl⟩ | ⟨hne₂, h₂'⟩
      · rfl
      · exact absurd he.symm (hname id₂ s₂ h₂' hne₂)
    · rcases hsession id₂ s₂ h₂ with ⟨rfl, rfl⟩ | ⟨_, h₂'⟩
      · exact absurd he (hname id₁ s₁ h₁' hne₁)
      · exact h.names h₁' h₂' he
  · intro id' s group name handle hs hf
    rcases hsession id' s hs with ⟨_, rfl⟩ | ⟨_, hs'⟩
    · exact (hfind group name handle hf).1
    · exact h.paths hs' hf
  · intro handle hh
    rcases hpublished handle hh with hold | ⟨rfl, hlt⟩
    · exact Nat.lt_of_lt_of_le (h.serials hold) hsize
    · exact hlt
  · -- all records in use are older than the record of the fresh handle
    intro h₁ h₂ hh₁ hh₂ he
    rcases hpublished h₁ hh₁ with hold₁ | ⟨rfl, _⟩
    · rcases hpublished h₂ hh₂ with hold₂ | ⟨rfl, _⟩
      · exact h.distinct hold₁ hold₂ he
      · have := h.serials hold₁
        omega
    · rcases hpublished h₂ hh₂ with hold₂ | ⟨rfl, _⟩
      · have := h.serials hold₂
        omega
      · rfl

theorem Filed.register {hub : Hub} (h : hub.Filed) {id : Nat} {l : Link}
    (hl : hub.link id = some l) (hphase : l.phase = .connected) (name version : String) :
    (hub.register id name version).Filed := by
  unfold Hub.register
  dsimp only
  split
  · exact h.shrink (shrinks_modifyLink_of (fun _ => Or.inl rfl))
  · split
    · exact h.shrink (shrinks_modifyLink_of (fun _ => Or.inl rfl))
    · rename_i hfree
      refine h.replaceSession id ⟨name, version, SortedMap.empty⟩
        ⟨hub.records.size, ⟨"", "", "", ""⟩⟩ (h.links.mapValues _) h.records
        (Nat.le_refl _) rfl ?_ ?_ ?_
      · intro id' l' hl' _
        rw [link_modifyLink] at hl'
        split at hl'
        · rename_i he
          subst he
          rw [hl] at hl'
          cases hl'
          exact Or.inl ⟨rfl, hphase, rfl⟩
        · rename_i hne
          exact Or.inr ⟨fun he => hne he.symm, hl'⟩
      · intro id' s hs _
        exact linkOf_isNone (by simpa using hfree) hs
      · intro group n handle hf
        cases hf

theorem Filed.publishNew {hub : Hub} (h : hub.Filed) {id : Nat} {s : ExporterSession}
    (hs : hub.session id = some s) (group name : String) (r : ResourceRecord) :
    (hub.publishNew id s group name r).Filed := by
  obtain ⟨l, hl, hls⟩ := session_eq_some_iff.mp hs
  have hphase : l.phase = .connected := h.connected hl (by rw [hls]; rfl)
  generalize hh : (⟨hub.records.size, ⟨s.name, group, r.cls, name⟩⟩ : Handle) = handle
  have hserial : handle.serial = hub.records.size := by rw [← hh]
  have hlt : handle.serial < (hub.publishNew id s group name r).records.size := by
    have hsize : (hub.publishNew id s group name r).records.size = hub.records.size + 1 :=
      SortedMap.size_insert r h.records.get?_size
    omega
  have hlink : ∀ id', (hub.publishNew id s group name r).link id' =
      (hub.modifySession id (fun s => s.file group name handle)).link id' := by
    intro id'
    rw [← hh]
    rfl
  refine h.replaceSession id (s.file group name handle) handle (h.links.mapValues _)
    (h.records.insert r) (by omega) hserial ?_ ?_ ?_
  · intro id' l' hl' _
    rw [hlink] at hl'
    unfold modifySession at hl'
    rw [link_modifyLink] at hl'
    split at hl'
    · rename_i he
      subst he
      rw [hl] at hl'
      cases hl'
      exact Or.inl ⟨rfl, hphase, by simp [hls]⟩
    · rename_i hne
      exact Or.inr ⟨fun he => hne he.symm, hl'⟩
  · intro id' s' hs' hne he
    exact hne (h.names hs' hs he)
  · intro g n handle' hf
    rw [ExporterSession.find?_file] at hf
    split at hf
    · rename_i he
      cases hf
      refine ⟨?_, Or.inr ⟨rfl, hlt⟩⟩
      rw [← hh]
      exact ⟨rfl, he.1, he.2⟩
    · have hpath := h.paths hs hf
      exact ⟨hpath, Or.inl (mem_published_iff.mpr ⟨id, s, g, n, hs, hf⟩)⟩

theorem Filed.report {hub : Hub} (h : hub.Filed) {id : Nat} {s : ExporterSession}
    (hs : hub.session id = some s) (r : ResourceReport) : (hub.report id s r).Filed := by
  unfold Hub.report
  split
  · exact h
  · split
    · exact h.shrink (shrinks_withdraw ..)
    · unfold publish
      split
      · exact h.publishNew hs ..
      · rename_i handle _
        split
        · have hrecord := shrinks_modifyRecord hub handle
            (fun old => old.merge (ResourceRecord.ofReport r))
          exact h.shrink (hrecord.trans (.of_eq rfl rfl))
        · exact (h.shrink (shrinks_modifyRecord hub handle _)).publishNew hs ..

theorem Filed.hearExporter {hub : Hub} (h : hub.Filed) (id : Nat) (m : ExporterMessage) :
    (hub.hearExporter id m).Filed := by
  unfold Hub.hearExporter
  split
  · exact h
  · rename_i l hl
    split
    · exact h
    · rename_i hphase
      split
      · exact h
      · exact h.register hl (by simpa using hphase) ..
      · rename_i hs
        exact h.report (session_eq_some_iff.mpr ⟨l, hl, hs⟩) _
      · exact h
      · exact h.shrink (shrinks_modifyLink_of (fun _ => Or.inr ⟨rfl, fun hc => hc⟩))
      · exact h

theorem Filed.apply {hub : Hub} (h : hub.Filed) (e : Event) : (hub.apply e).Filed := by
  cases e with
  | exporterOpens =>
    refine h.shrink ⟨fun hl => hl.insert _, fun hr => hr, Nat.le_refl _, ?_⟩
    intro id l s hl hs
    rcases SortedMap.get?_insert_eq_some_iff.mp hl with ⟨_, rfl⟩ | ⟨_, hold⟩
    · cases hs
    · exact ⟨l, s, hold, hs, fun hc => hc, rfl, fun _ _ _ hf => hf⟩
  | exporterSends id m => exact h.hearExporter id m
  | exporterTakes id =>
    exact h.shrink (shrinks_modifyLink_of Link.keepsOrEnds_deliver)
  | exporterEnds id => exact h.shrink (shrinks_disconnect Link.keepsOrEnds_finish)
  | exporterLeaves id => exact h.shrink (shrinks_disconnect Link.keepsOrEnds_close)
  | clientOpens address => exact h.shrink (.of_eq rfl rfl)
  | clientStarts id name version => exact h.shrink (.of_eq rfl rfl)
  | clientSyncs id n => exact h.shrink (.of_eq rfl rfl)
  | clientFollowsResources id enable => exact h.shrink (.of_eq rfl rfl)
  | clientLeaves id => exact h.shrink (.of_eq rfl rfl)

/-! ## Passages -/

theorem Stir.filed {hub hub' : Hub} (hs : Stir hub hub') (h : hub.Filed) : hub'.Filed := by
  cases hs with
  | event e => exact h.apply e
  | channel id f => exact h.shrink (shrinks_modifyLink_of (fun _ => Or.inr ⟨rfl, fun hc => hc⟩))
  | work _ => exact h.shrink (.of_eq rfl rfl)

theorem Filed.settled {tells : Bool} {a : Attempt} (h : a.hub.Filed) :
    (a.settled tells).Filed := by
  unfold Attempt.settled
  split
  · exact h.shrink (shrinks_modifyRecord a.hub a.handle _)
  · split
    · exact h.shrink (.of_eq rfl rfl)
    · exact h

theorem Exchange.filed {tells : Bool} {hub hub' : Hub} {l : List Attempt}
    (hx : Exchange tells hub l hub') (h : hub.Filed) : hub'.Filed := by
  induction hx with
  | refl => exact h
  | stir _ hs ih => exact hs.filed ih
  | settle _ ih => exact ih.settled

/-- Writes leave links and records alone. -/
theorem Writes.aside {hub hub' : Hub} (hw : Writes hub hub') :
    hub'.links = hub.links ∧ hub'.records = hub.records := by
  induction hw with
  | refl => exact ⟨rfl, rfl⟩
  | tail _ hw ih => cases hw <;> exact ih

theorem Passage.filed {o : Occasion} {tells : Bool} {hub hub' : Hub} {l : List Attempt}
    (hp : Passage o tells hub l hub') (h : hub.Filed) : hub'.Filed := by
  induction hp with
  | refl => exact h
  | exchange _ hx ih => exact hx.filed ih
  | move _ hm _ ih =>
    obtain ⟨hl, hr⟩ := Writes.aside hm.writes
    exact ih.shrink (.of_eq hl hr)

/-! ## Paths of published handles -/

theorem nodup_sessions {hub : Hub} (h : hub.Filed) :
    (hub.sessions.map (fun e => e.2.name)).Nodup := by
  unfold sessions
  refine ((perm_stableSort _ _).map _).nodup_iff.mpr ?_
  refine List.pairwise_map.mpr (List.pairwise_filterMap.mpr ?_)
  refine hub.links.sorted.imp_of_mem ?_
  rintro ⟨id, l⟩ ⟨id', l'⟩ hl hl' hlt ⟨_, s⟩ hs ⟨_, s'⟩ hs' he
  obtain ⟨t, ht, hte⟩ := Option.map_eq_some_iff.mp hs
  obtain ⟨t', ht', hte'⟩ := Option.map_eq_some_iff.mp hs'
  cases hte
  cases hte'
  refine KeyOrder.ne_of_lt hlt (h.names ?_ ?_ he)
  · exact session_eq_some_iff.mpr ⟨l, SortedMap.mem_toList_iff.mp hl, ht⟩
  · exact session_eq_some_iff.mpr ⟨l', SortedMap.mem_toList_iff.mp hl', ht'⟩

/-- No path is published twice. -/
theorem Filed.nodup_published {hub : Hub} (h : hub.Filed) :
    (hub.published.map Handle.path).Nodup := by
  have hexporter : ∀ e ∈ hub.sessions, ∀ path ∈ e.2.handles.map Handle.path,
      path.exporter = e.2.name := by
    rintro ⟨id, s⟩ hs path hp
    obtain ⟨handle, hh, rfl⟩ := List.mem_map.mp hp
    obtain ⟨group, name, hf⟩ := ExporterSession.mem_handles_iff.mp hh
    exact (h.paths (mem_sessions_iff.mp hs) hf).1
  unfold published
  rw [List.map_flatMap, List.nodup_flatMap]
  constructor
  · rintro ⟨id, s⟩ hs
    exact ExporterSession.nodup_handles (fun hf => (h.paths (mem_sessions_iff.mp hs) hf).2)
  · refine (List.pairwise_map.mp (nodup_sessions h)).imp_of_mem ?_
    intro e e' he he' hne path hp hp'
    exact hne ((hexporter e he path hp).symm.trans (hexporter e' he' path hp'))

end Hub

/-! ## Courses -/

namespace Station

theorem named_start {settings : HubSettings} {directory : Option StateDirectory} {s : Station}
    (h : Station.start settings directory = .ok s) : s.hub.Named := by
  obtain ⟨places, hhub, hplaces⟩ := start_ok h
  rw [hhub]
  exact fun k p hp => (hplaces k p hp).1

theorem filed_start {settings : HubSettings} {directory : Option StateDirectory} {s : Station}
    (h : Station.start settings directory = .ok s) : s.hub.Filed := by
  obtain ⟨places, hhub, _⟩ := start_ok h
  rw [hhub]
  exact Hub.filed_new settings places

/-- Throughout a course places are stored under their names and published handles are filed. -/
theorem Course.filed {settings : HubSettings} {directory : Option StateDirectory}
    {start s : Station} {turns : List Turn} (h : Station.start settings directory = .ok start)
    (hc : Course start turns s) : s.hub.Named ∧ s.hub.Filed := by
  refine hc.invariant (P := fun hub => hub.Named ∧ hub.Filed) ⟨named_start h, filed_start h⟩ ?_ ?_
  · rintro hub dirty ⟨hn, hf⟩
    exact ⟨hn, hf.shrink (.of_eq rfl rfl)⟩
  · rintro ω react around now op hub ⟨hn, hf⟩
    have hp := Run.perform_passes react now op around hn hf.nodup_published
    exact ⟨hp.named hn, hp.filed hf⟩

/-- A turn is a passage on the occasion of its operation, or it changes only the mark of a
change. -/
theorem Step.passage {s t : Station} {turn : Turn} (hs : Step s turn t) (hn : s.hub.Named)
    (hf : s.hub.Filed) :
    (∃ op, turn.operation = some op ∧
      Hub.Passage ⟨turn.now, op, s.hub⟩ op.tells s.hub turn.attempts t.hub) ∨
    turn.operation = none ∧ turn.attempts = [] ∧
      ∃ dirty, t.hub = { s.hub with dirty := dirty } := by
  cases hs with
  | operate react around now op =>
    exact Or.inl ⟨op, rfl, Run.perform_passes react now op around hn hf.nodup_published⟩
  | save now => exact Or.inr ⟨rfl, rfl, hub_save s⟩
  | saveIfDirty now => exact Or.inr ⟨rfl, rfl, hub_saveIfDirty s⟩

/-- What depends on places and reservations only, and is kept by every move, holds throughout
a course and whenever the outcome of a command becomes known. -/
theorem Course.kept {P : Hub → Prop} {settings : HubSettings} {directory : Option StateDirectory}
    {start s : Station} {turns : List Turn} (h : Station.start settings directory = .ok start)
    (hc : Course start turns s) (hstart : P start.hub)
    (hquiet : ∀ {hub hub' : Hub}, Hub.Quiet hub hub' → P hub → P hub')
    (hmove : ∀ {o : Occasion} {hub hub' : Hub}, hub.Named → P hub → Hub.Move o hub hub' → P hub') :
    P s.hub ∧ ∀ turn ∈ turns, ∀ a ∈ turn.attempts, P a.hub := by
  induction hc with
  | start => exact ⟨hstart, fun turn ht => by cases ht⟩
  | @step past s turn t hc hs ih =>
    obtain ⟨hp, hpast⟩ := ih
    obtain ⟨hn, hf⟩ := hc.filed h
    suffices hlast : P t.hub ∧ ∀ a ∈ turn.attempts, P a.hub by
      refine ⟨hlast.1, fun turn' ht => ?_⟩
      rcases List.mem_append.mp ht with hold | hnew
      · exact hpast turn' hold
      · rw [List.mem_singleton.mp hnew]
        exact hlast.2
    rcases hs.passage hn hf with ⟨op, _, hpass⟩ | ⟨_, hnone, dirty, hd⟩
    · exact hpass.kept hquiet hmove hn hp
    · rw [hd, hnone]
      exact ⟨hquiet (Hub.quiet_dirty s.hub dirty) hp, fun a ha => by cases ha⟩

end Station

end BoardFarm
