import BoardFarm.Proofs.LinkActs
import BoardFarm.Proofs.Turnover

/-!
# Trees of resources

Lookups, matches and what clients see go by different parts of the path of a published handle.
They agree since a handle is filed under the name of its exporter, the group and the name of its
path, and its record has the class of its path, whatever reports, withdrawals and refused exporters
came in between.

* `Hub.Shift`, `Hub.Reaches`: one change of a hub, and all that it may come to.
* `Hub.Arranged`: how the trees of the exporters are arranged.
* `Hub.FilesReports`: a report of the class that is filed leaves the trees as they are.
* `Hub.Admission`: an exporter that is not registered changes no tree.
* `Station.Course.resource_trees`: all of this holds whatever a hub comes to.
-/

namespace BoardFarm

namespace ExporterSession

/-- The exporter has a name, and every group of its tree has a handle. -/
structure Tidy (s : ExporterSession) : Prop where
  named : s.name ≠ ""
  groups : ∀ {group : String} {named : SortedMap String Handle},
    s.tree.get? group = some named → named.isEmpty = false

variable {s : ExporterSession}

theorem Tidy.file (h : s.Tidy) (group name : String) (x : Handle) :
    (s.file group name x).Tidy := by
  refine ⟨h.named, ?_⟩
  intro group' named hg
  rcases SortedMap.get?_insert_eq_some_iff.mp hg with ⟨_, rfl⟩ | ⟨_, hold⟩
  · exact SortedMap.isEmpty_eq_false (SortedMap.get?_insert _ name name x ▸ if_pos rfl)
  · exact h.groups hold

/-- A group that has lost its last handle is removed. -/
theorem Tidy.remove (h : s.Tidy) (group name : String) : (s.remove group name).Tidy := by
  refine ⟨h.named, ?_⟩
  unfold ExporterSession.remove
  dsimp only
  intro group' named hg
  split at hg
  · exact h.groups (SortedMap.get?_erase_eq_some_iff.mp hg).2
  · rename_i hleft
    rcases SortedMap.get?_insert_eq_some_iff.mp hg with ⟨_, rfl⟩ | ⟨_, hold⟩
    · simpa using hleft
    · exact h.groups hold

end ExporterSession

namespace Hub

variable {hub hub' : Hub} {id : Nat}

/-! ## Names and groups -/

/-- All registered exporters are tidy. -/
def Tidy (hub : Hub) : Prop := ∀ id s, hub.session id = some s → s.Tidy

theorem Tidy.of_links (h : hub.Tidy) (hlinks : hub'.links = hub.links) : hub'.Tidy := by
  intro id s hs
  rw [session_of_links hlinks] at hs
  exact h id s hs

theorem Tidy.modifyLink (h : hub.Tidy) {f : Link → Link}
    (hf : ∀ l s, hub.link id = some l → (f l).session = some s → s.Tidy) :
    (hub.modifyLink id f).Tidy := by
  intro id' s hs
  rw [session_modifyLink] at hs
  split at hs
  · rename_i he
    subst he
    obtain ⟨l, hl, hls⟩ := Option.bind_eq_some_iff.mp hs
    exact hf l s hl hls
  · exact h id' s hs

theorem Tidy.modifyLink_of (h : hub.Tidy) {f : Link → Link} (hf : Link.KeepsOrEnds f) :
    (hub.modifyLink id f).Tidy := by
  apply h.modifyLink
  intro l s hl hs
  rcases hf l with hnone | ⟨hsame, _⟩
  · rw [hnone] at hs
    cases hs
  · rw [hsame] at hs
    exact h id s (session_eq_some_iff.mpr ⟨l, hl, hs⟩)

theorem Tidy.modifySession (h : hub.Tidy) (id : Nat) {f : ExporterSession → ExporterSession}
    (hf : ∀ s : ExporterSession, s.Tidy → (f s).Tidy) : (hub.modifySession id f).Tidy := by
  apply h.modifyLink
  intro l s hl hs
  obtain ⟨t, ht, rfl⟩ := Option.map_eq_some_iff.mp hs
  exact hf t (h id t (session_eq_some_iff.mpr ⟨l, hl, ht⟩))

theorem Tidy.publishNew (h : hub.Tidy) (s : ExporterSession) (group name : String)
    (r : ResourceRecord) : (hub.publishNew id s group name r).Tidy := by
  have hrecord : Tidy { hub with records := hub.records.insert hub.records.size r } :=
    h.of_links rfl
  have hfiled := hrecord.modifySession id (fun _ ht =>
    ht.file group name ⟨hub.records.size, ⟨s.name, group, r.cls, name⟩⟩)
  exact hfiled.of_links rfl

theorem Tidy.withdraw (h : hub.Tidy) (s : ExporterSession) (group name : String) :
    (hub.withdraw id s group name).Tidy := by
  unfold Hub.withdraw
  split
  · exact h
  · rename_i x _
    have hflag : (hub.orphanIfHeld x).Tidy := h.of_links rfl
    exact (hflag.modifySession id (fun _ ht => ht.remove group name)).of_links rfl

theorem Tidy.report (h : hub.Tidy) (s : ExporterSession) (r : ResourceReport) :
    (hub.report id s r).Tidy := by
  unfold Hub.report
  split
  · exact h
  · split
    · exact h.withdraw s _ _
    · unfold publish
      split
      · exact h.publishNew s _ _ _
      · rename_i x _
        split
        · exact h.of_links rfl
        · have hflag : (hub.orphanIfHeld x).Tidy := h.of_links rfl
          exact hflag.publishNew s _ _ _

theorem Tidy.register (h : hub.Tidy) (name version : String) :
    (hub.register id name version).Tidy := by
  unfold Hub.register
  dsimp only
  split
  · exact h.modifyLink_of (fun _ => Or.inl rfl)
  · rename_i hname
    split
    · exact h.modifyLink_of (fun _ => Or.inl rfl)
    · apply h.modifyLink
      intro l s _ hs
      cases hs
      refine ⟨?_, fun hg => by cases hg⟩
      rintro rfl
      exact hname rfl

theorem Tidy.hearExporter (h : hub.Tidy) (m : ExporterMessage) : (hub.hearExporter id m).Tidy := by
  unfold Hub.hearExporter
  split
  · exact h
  · split
    · exact h
    · split
      · exact h
      · exact h.register _ _
      · exact h.report _ _
      · exact h
      · exact h.modifyLink_of (fun _ => Or.inr ⟨rfl, fun hc => hc⟩)
      · exact h

theorem Tidy.disconnect (h : hub.Tidy) {finish : Link → Link} (hf : Link.KeepsOrEnds finish) :
    (hub.disconnect id finish).Tidy := by
  have hall : (hub.withdrawAll id).Tidy := by
    unfold withdrawAll
    split
    · exact h
    · rename_i s _
      have hleft : (s.handles.foldl
          (fun hub x => hub.withdraw id s x.path.group x.path.name) hub).Tidy :=
        List.foldlRecOn _ _ (motive := Tidy) h (fun _ h₁ _ _ => h₁.withdraw s _ _)
      exact hleft.of_links rfl
  unfold Hub.disconnect
  split
  · exact h
  · split
    · exact hall.modifyLink_of hf
    · exact h.modifyLink_of hf

theorem Tidy.apply (h : hub.Tidy) (hf : hub.Filed) (e : Event) : (hub.apply e).Tidy := by
  cases e with
  | exporterOpens =>
    intro id s hs
    rw [session_exporterOpens hf] at hs
    exact h id s hs
  | exporterSends id m => exact h.hearExporter m
  | exporterTakes id => exact h.modifyLink_of Link.keepsOrEnds_deliver
  | exporterEnds id => exact h.disconnect Link.keepsOrEnds_finish
  | exporterLeaves id => exact h.disconnect Link.keepsOrEnds_close
  | clientOpens address => exact h.of_links rfl
  | clientStarts id name version => exact h.of_links rfl
  | clientSyncs id n => exact h.of_links rfl
  | clientFollowsResources id enable => exact h.of_links rfl
  | clientLeaves id => exact h.of_links rfl

/-! ## Records -/

/-- The handle has a record, with the class of its path, and is not flagged as an orphan. -/
def Describes (hub : Hub) (x : Handle) : Prop :=
  ∃ r, hub.records.get? x.serial = some r ∧ r.cls = x.path.cls ∧ r.cls ≠ "" ∧ r.orphaned = false

/-- Every published handle is described. -/
def Described (hub : Hub) : Prop := ∀ x ∈ hub.published, hub.Describes x

variable {x y : Handle}

theorem Describes.of_get? (h : hub.Describes x)
    (he : hub'.records.get? x.serial = hub.records.get? x.serial) : hub'.Describes x := by
  obtain ⟨r, hr, hrest⟩ := h
  exact ⟨r, he.trans hr, hrest⟩

/-- A change of a record that keeps its class and its flag. -/
theorem Describes.modifyRecord (h : hub.Describes x) {f : ResourceRecord → ResourceRecord}
    (hf : y.serial = x.serial → ∀ r, hub.records.get? x.serial = some r → r.cls = x.path.cls →
      (f r).cls = r.cls ∧ (f r).orphaned = r.orphaned) : (hub.modifyRecord y f).Describes x := by
  obtain ⟨r, hr, hcls, hne, hflag⟩ := h
  unfold Hub.modifyRecord Describes
  rw [SortedMap.get?_modify]
  split
  · rename_i he
    obtain ⟨hcls', hflag'⟩ := hf he r hr hcls
    refine ⟨f r, by rw [hr]; rfl, hcls'.trans hcls, hcls' ▸ hne, hflag'.trans hflag⟩
  · exact ⟨r, hr, hcls, hne, hflag⟩

theorem Describes.orphanIfHeld (h : hub.Describes x) (hne : y.serial ≠ x.serial) :
    (hub.orphanIfHeld y).Describes x :=
  h.modifyRecord (fun he => absurd he hne)

/-- A new handle gets a record of its class; in all other slots handles and records stay. -/
theorem described_publishNew (hf : hub.Filed) {s : ExporterSession} {group name : String}
    (hs : hub.session id = some s) {r : ResourceRecord} (hcls : r.cls ≠ "")
    (hflag : r.orphaned = false)
    (hold : ∀ x ∈ hub.published, x.path.slot ≠ [s.name, group, name] → hub.Describes x) :
    (hub.publishNew id s group name r).Described := by
  have hrecords : ∀ k, (hub.publishNew id s group name r).records.get? k =
      if hub.records.size = k then some r else hub.records.get? k :=
    fun k => SortedMap.get?_insert ..
  intro x hx
  rcases (mem_published_publishNew hf hs group name r).mp hx with rfl | ⟨hx, hne⟩
  · exact ⟨r, (hrecords _).trans (if_pos rfl), rfl, hcls, hflag⟩
  · refine (hold x hx hne).of_get? ((hrecords _).trans (if_neg ?_))
    have hlt := hf.serials hx
    omega

theorem Described.publish (h : hub.Described) (hf : hub.Filed) {s : ExporterSession}
    (hs : hub.session id = some s) (group name : String) {r : ResourceReport} (hcls : r.cls ≠ "") :
    (hub.publish id s group name (ResourceRecord.ofReport r)).Described := by
  unfold Hub.publish
  split
  · exact described_publishNew hf hs hcls rfl (fun x hx _ => h x hx)
  · rename_i y hy
    have hmem : y ∈ hub.published := mem_published_iff.mpr ⟨id, s, group, name, hs, hy⟩
    split
    · -- `y` gets the record of the report, which has its class
      rename_i hsame
      intro x hx
      refine (h x hx).modifyRecord ?_
      intro he r' _ hr'
      rw [hf.distinct hmem hx he] at hsame
      exact ⟨(beq_iff_eq.mp hsame).symm.trans hr'.symm, rfl⟩
    · have hf' : (hub.orphanIfHeld y).Filed := hf.shrink (shrinks_modifyRecord hub y _)
      refine described_publishNew hf' hs hcls rfl ?_
      intro x hx hne
      refine (h x hx).orphanIfHeld (hf.serial_ne hmem hx ?_)
      rw [slot_of_find? hf hs hy]
      exact fun he => hne he.symm

theorem Withdraws.described {l : List Handle} (hw : Withdraws hub l hub') (hf : hub.Filed)
    (h : hub.Described) : hub'.Described := by
  induction hw with
  | nil => exact h
  | @cons hub hub' y rest id s left hs hin hfind _ ih =>
    refine ih (hf.shrink (shrinks_withdraw ..)) ?_
    intro x hx
    obtain ⟨hx, hne⟩ := (mem_published_withdraw hf hs hin hfind).mp hx
    have hy : y ∈ hub.published := mem_published_iff.mpr ⟨id, _, _, _, hs, hin⟩
    have hflagged := (h x hx).orphanIfHeld (hf.serial_ne hy hx (fun he => hne he.symm))
    exact hflagged.of_get? (by rw [records_withdraw id hfind])

theorem TreeChange.described (ht : TreeChange hub hub') (hf : hub.Filed) (h : hub.Described) :
    hub'.Described := by
  have hunmoved : ∀ {hub hub' : Hub}, Unmoved hub hub' → hub.Described → hub'.Described := by
    intro hub hub' hu h x hx
    exact (h x ((hu.published x).mp hx)).of_get? (by rw [hu.records])
  cases ht with
  | unmoved hu => exact hunmoved hu h
  | publish hs group name r hcls => exact h.publish hf hs group name hcls
  | withdraw hw hrest => exact hunmoved hrest (hw.described hf h)

theorem Described.of_same (h : hub.Described) (hlinks : hub'.links = hub.links)
    (hrecords : hub'.records = hub.records) : hub'.Described := by
  intro x hx
  rw [published_of_links hlinks] at hx
  exact (h x hx).of_get? (by rw [hrecords])

theorem Described.apply (h : hub.Described) (hf : hub.Filed) (e : Event) :
    (hub.apply e).Described := by
  rcases treeChange_apply hf e with ht | ⟨hlinks, hrecords, _⟩
  · exact ht.described hf h
  · exact h.of_same hlinks hrecords

/-! ## What a hub may come to -/

/-- One change of a hub: something happens on the streams, a command is done with, an operation
changes places or reservations, or the state is marked as saved or not. -/
inductive Shift (hub : Hub) : Hub → Prop
  | stir {hub' : Hub} (hs : Stir hub hub') : Shift hub hub'
  | settle {tells : Bool} {a : Attempt} (ha : a.hub = hub) : Shift hub (a.settled tells)
  | move {o : Occasion} {hub' : Hub} (hm : Move o hub hub') : Shift hub hub'
  | mark (dirty : Bool) : Shift hub { hub with dirty := dirty }

/-- What a hub may come to. -/
abbrev Reaches : Hub → Hub → Prop := Relation.ReflTransGen Shift

theorem Exchange.reaches {tells : Bool} {l : List Attempt} (hx : Exchange tells hub l hub') :
    hub.Reaches hub' ∧ ∀ a ∈ l, hub.Reaches a.hub := by
  induction hx with
  | refl => exact ⟨.refl, fun a ha => by cases ha⟩
  | stir _ hs ih => exact ⟨ih.1.tail (.stir hs), ih.2⟩
  | settle _ ih =>
    refine ⟨ih.1.tail (.settle rfl), ?_⟩
    intro a ha
    rcases List.mem_append.mp ha with hold | hlast
    · exact ih.2 a hold
    · rw [List.mem_singleton.mp hlast]
      exact ih.1

theorem Passage.reaches {o : Occasion} {tells : Bool} {l : List Attempt}
    (hp : Passage o tells hub l hub') : hub.Reaches hub' ∧ ∀ a ∈ l, hub.Reaches a.hub := by
  induction hp with
  | refl => exact ⟨.refl, fun a ha => by cases ha⟩
  | exchange _ hx ih =>
    obtain ⟨hreaches, hall⟩ := hx.reaches
    refine ⟨ih.1.trans hreaches, ?_⟩
    intro a ha
    rcases List.mem_append.mp ha with hold | hnew
    · exact ih.2 a hold
    · exact ih.1.trans (hall a hnew)
  | move _ hm _ ih => exact ⟨ih.1.tail (.move hm), ih.2⟩

theorem links_settled (tells : Bool) (a : Attempt) : (a.settled tells).links = a.hub.links := by
  unfold Attempt.settled
  split
  · rfl
  · split <;> rfl

/-- What is known of the trees at all times. -/
structure Kept (hub : Hub) : Prop where
  filed : hub.Filed
  tidy : hub.Tidy
  described : hub.Described

theorem Kept.of_same (h : hub.Kept) (hlinks : hub'.links = hub.links)
    (hrecords : hub'.records = hub.records) : hub'.Kept :=
  ⟨h.filed.shrink (.of_eq hlinks hrecords), h.tidy.of_links hlinks,
    h.described.of_same hlinks hrecords⟩

theorem Kept.settled {tells : Bool} {a : Attempt} (h : a.hub.Kept) : (a.settled tells).Kept := by
  refine ⟨h.filed.settled, h.tidy.of_links (links_settled tells a), ?_⟩
  unfold Attempt.settled
  split
  · exact fun x hx => (h.described x hx).modifyRecord (fun _ _ _ _ => ⟨rfl, rfl⟩)
  · split
    · exact h.described.of_same rfl rfl
    · exact h.described

theorem Kept.shift (h : hub.Kept) (hs : Shift hub hub') : hub'.Kept := by
  cases hs with
  | stir hs =>
    cases hs with
    | event e => exact ⟨h.filed.apply e, h.tidy.apply h.filed e, h.described.apply h.filed e⟩
    | channel id f =>
      have hkeeps : Link.KeepsOrEnds (fun l => { l with channel := f l.channel }) :=
        fun _ => Or.inr ⟨rfl, fun hc => hc⟩
      have hu : Unmoved hub (hub.modifyLink id (fun l => { l with channel := f l.channel })) :=
        unmoved_modifyLink_same (fun _ => rfl)
      exact ⟨h.filed.shrink (shrinks_modifyLink_of hkeeps), h.tidy.modifyLink_of hkeeps,
        (TreeChange.unmoved hu).described h.filed h.described⟩
    | work _ => exact h.of_same rfl rfl
  | settle ha =>
    subst ha
    exact h.settled
  | move hm =>
    obtain ⟨hlinks, hrecords⟩ := Writes.aside hm.writes
    exact h.of_same hlinks hrecords
  | mark dirty => exact h.of_same rfl rfl

theorem Kept.reaches (h : hub.Kept) (hr : hub.Reaches hub') : hub'.Kept := by
  induction hr with
  | refl => exact h
  | tail _ hs ih => exact ih.shift hs

theorem kept_new (settings : HubSettings) (places : SortedMap String Place) :
    (new settings places).Kept := by
  refine ⟨filed_new settings places, ?_, ?_⟩
  · intro id s hs
    cases hs
  · intro x hx
    cases hx

/-! ## The trees -/

/-- Registered exporters have different names, and none is empty. What is filed in the tree of an
exporter under a group and a name has the path of the exporter, the group, the class of its record,
and the name, and is not flagged as an orphan; no group is without handles. So no path is published
twice. -/
structure Arranged (hub : Hub) : Prop where
  names : (hub.sessions.map (fun e => e.2.name)).Nodup
  named : ∀ {id : Nat} {s : ExporterSession}, hub.session id = some s → s.name ≠ ""
  entries : ∀ {id : Nat} {s : ExporterSession} {group name : String} {x : Handle},
    hub.session id = some s → s.find? group name = some x →
      ∃ r, hub.records.get? x.serial = some r ∧ x.path = ⟨s.name, group, r.cls, name⟩ ∧
        r.orphaned = false
  groups : ∀ {id : Nat} {s : ExporterSession} {group : String} {named : SortedMap String Handle},
    hub.session id = some s → s.tree.get? group = some named → named.isEmpty = false
  paths : (hub.published.map Handle.path).Nodup

theorem Kept.arranged (h : hub.Kept) : hub.Arranged := by
  refine ⟨nodup_sessions h.filed, fun hs => (h.tidy _ _ hs).named, ?_,
    fun hs hg => (h.tidy _ _ hs).groups hg, h.filed.nodup_published⟩
  intro id s group name x hs hx
  obtain ⟨r, hr, hcls, _, hflag⟩ := h.described x
    (mem_published_iff.mpr ⟨id, s, group, name, hs, hx⟩)
  obtain ⟨hexporter, hgroup, hname⟩ := h.filed.paths hs hx
  refine ⟨r, hr, ?_, hflag⟩
  rw [← hexporter, ← hgroup, ← hname, hcls]

/-! ## Reports -/

/-- A report of a class is filed under its address. If the class is filed there already, nothing
changes but the record of the handle, and what clients have been told. Otherwise a new handle takes
the place. -/
structure FilesReports (hub : Hub) : Prop where
  updates : ∀ {id : Nat} {s : ExporterSession} {group name : String} {x : Handle}
    {r : ResourceReport}, hub.session id = some s → s.find? group name = some x →
      r.address = some (group, name) → r.cls = x.path.cls →
        ∃ clients, hub.apply (.exporterSends id (.resource r)) =
          { hub with
            records := hub.records.modify x.serial (fun old =>
              old.merge (ResourceRecord.ofReport r))
            clients := clients }
  replaces : ∀ {id : Nat} {s : ExporterSession} {group name : String} {r : ResourceReport},
    hub.session id = some s → r.address = some (group, name) → r.cls ≠ "" →
      (∀ x, s.find? group name = some x → x.path.cls ≠ r.cls) →
        ∃ s', (hub.apply (.exporterSends id (.resource r))).session id = some s' ∧
          s'.find? group name = some ⟨hub.records.size, ⟨s.name, group, r.cls, name⟩⟩

theorem Kept.filesReports (h : hub.Kept) : hub.FilesReports := by
  constructor
  · intro id s group name x r hs hx haddress hcls
    obtain ⟨_, _, hsame, hne, _⟩ := h.described x
      (mem_published_iff.mpr ⟨id, s, group, name, hs, hx⟩)
    have hclass : r.cls ≠ "" := by
      rw [hcls, ← hsame]
      exact hne
    have hupdate := hearExporter_resource h.filed hs haddress hclass
    rw [publish_of_cls hx hcls.symm] at hupdate
    exact ⟨_, hupdate⟩
  · intro id s group name r hs haddress hclass hother
    have hfiled : ∀ hub₁ : Hub, hub₁.links = hub.links →
        hub₁.records.size = hub.records.size → ∃ s',
          (hub₁.publishNew id s group name (ResourceRecord.ofReport r)).session id = some s' ∧
            s'.find? group name = some ⟨hub.records.size, ⟨s.name, group, r.cls, name⟩⟩ := by
      intro hub₁ hlinks hsize
      rw [session_publishNew, if_pos rfl, session_of_links hlinks, hs, hsize]
      refine ⟨_, rfl, ?_⟩
      rw [ExporterSession.find?_file, if_pos ⟨rfl, rfl⟩]
      rfl
    have happly : hub.apply (.exporterSends id (.resource r)) =
        hub.publish id s group name (ResourceRecord.ofReport r) :=
      hearExporter_resource h.filed hs haddress hclass
    rw [happly]
    cases hx : s.find? group name with
    | none =>
      rw [publish_of_none hx]
      exact hfiled hub rfl rfl
    | some x =>
      rw [publish_of_other_cls hx (hother x hx)]
      exact hfiled _ rfl (size_modifyRecord ..)

/-! ## Exporters that are not registered -/

/-- The name is empty, or a registered exporter has it. -/
def Refuses (hub : Hub) (name : String) : Prop :=
  name = "" ∨ ∃ id s, hub.session id = some s ∧ s.name = name

/-- The stream of the exporter on a link has ended. -/
def Ended (hub : Hub) (id : Nat) : Prop := ∃ l, hub.link id = some l ∧ l.phase ≠ .connected

/-- Only one link is different, and all exporters and their trees are the same. -/
structure OnlyLink (id : Nat) (hub hub' : Hub) : Prop where
  rest : hub' = { hub with links := hub'.links }
  others : ∀ k, k ≠ id → hub'.link k = hub.link k
  sessions : ∀ k, hub'.session k = hub.session k

theorem OnlyLink.refl (id : Nat) (hub : Hub) : OnlyLink id hub hub :=
  ⟨rfl, fun _ _ => rfl, fun _ => rfl⟩

theorem onlyLink_modifyLink (hnone : hub.session id = none) {f : Link → Link}
    (hf : ∀ l, l.session = none → (f l).session = none) :
    OnlyLink id hub (hub.modifyLink id f) := by
  refine ⟨rfl, ?_, ?_⟩
  · intro k hk
    rw [link_modifyLink, if_neg (fun he => hk he.symm)]
  · intro k
    rw [session_modifyLink]
    split
    · rename_i he
      subst he
      rw [hnone]
      cases hl : hub.link id with
      | none => rfl
      | some l =>
        rw [session_of_link hl] at hnone
        exact hf l hnone
    · rfl

theorem onlyLink_disconnect (hnone : hub.session id = none) {finish : Link → Link}
    (hf : Link.KeepsOrEnds finish) : OnlyLink id hub (hub.disconnect id finish) := by
  have hfinish : OnlyLink id hub (hub.modifyLink id finish) := by
    apply onlyLink_modifyLink hnone
    intro l hl
    rcases hf l with he | ⟨he, _⟩
    · exact he
    · exact he.trans hl
  have hall : hub.withdrawAll id = hub := by
    unfold withdrawAll
    rw [hnone]
  unfold disconnect
  split
  · exact .refl id hub
  · split
    · rw [hall]
      exact hfinish
    · exact hfinish

/-- A refused exporter is told why, and its stream ends. -/
theorem register_refused {name : String} (hrefuses : hub.Refuses name) (id : Nat)
    (version : String) : hub.register id name version = hub.modifyLink id (fun l =>
      { l.finish with refusal := some (if name = "" then .emptyName else .duplicate name) }) := by
  unfold register
  dsimp only
  by_cases hname : name = ""
  · subst hname
    rfl
  · have hused : (hub.linkOf name).isSome = true :=
      linkOf_isSome_iff.mpr (hrefuses.resolve_left hname)
    have hnotEmpty : ¬ name.isEmpty = true := by simpa using hname
    simp only [if_neg hname, if_neg hnotEmpty, if_pos hused]

theorem register_of_free {name : String} (hfree : ¬ hub.Refuses name) (id : Nat)
    (version : String) : hub.register id name version = hub.modifyLink id (fun l =>
      { l with session := some ⟨name, version, SortedMap.empty⟩ }) := by
  obtain ⟨hname, hunused⟩ := not_or.mp hfree
  have hnotEmpty : ¬ name.isEmpty = true := by simpa using hname
  have hnobody : ¬ (hub.linkOf name).isSome = true := fun hused =>
    hunused (linkOf_isSome_iff.mp hused)
  unfold register
  dsimp only
  rw [if_neg hnotEmpty, if_neg hnobody]

/-- Where no exporter is registered on a link, only a startup message with a usable name changes
more than the link, and only as long as the stream has not ended. -/
theorem onlyLink_hearExporter (hnone : hub.session id = none) {m : ExporterMessage}
    (hrefused : ∀ name version, m = .startup name version → hub.Refuses name ∨ hub.Ended id) :
    OnlyLink id hub (hub.hearExporter id m) := by
  unfold hearExporter
  split
  · exact .refl id hub
  · rename_i l hl
    have hunregistered : l.session = none := (session_of_link hl).symm.trans hnone
    split
    · exact .refl id hub
    · rename_i hphase
      split
      · exact .refl id hub
      · rcases hrefused _ _ rfl with hrefuses | ⟨l', hl', hended⟩
        · rw [register_refused hrefuses]
          exact onlyLink_modifyLink hnone (fun _ _ => rfl)
        · rw [hl] at hl'
          cases hl'
          exact absurd hended hphase
      · rename_i hs
        rw [hunregistered] at hs
        cases hs
      · exact .refl id hub
      · exact onlyLink_modifyLink hnone (fun _ hl => hl)
      · exact .refl id hub

end Hub

/-- The link of an exporter on which an event happens. -/
def Event.link? : Event → Option Nat
  | .exporterSends id _ | .exporterTakes id | .exporterEnds id | .exporterLeaves id => some id
  | _ => none

namespace Hub

variable {hub hub' : Hub} {id : Nat}

theorem onlyLink_apply (hnone : hub.session id = none) {e : Event} (he : e.link? = some id)
    (hrefused : ∀ name version, e = .exporterSends id (.startup name version) →
      hub.Refuses name ∨ hub.Ended id) : OnlyLink id hub (hub.apply e) := by
  cases e with
  | exporterSends k m =>
    cases he
    apply onlyLink_hearExporter hnone
    rintro name version rfl
    exact hrefused name version rfl
  | exporterTakes k =>
    cases he
    exact onlyLink_modifyLink hnone (fun l hl => l.deliver_session.1.trans hl)
  | exporterEnds k =>
    cases he
    exact onlyLink_disconnect hnone Link.keepsOrEnds_finish
  | exporterLeaves k =>
    cases he
    exact onlyLink_disconnect hnone Link.keepsOrEnds_close
  | _ => cases he

/-! ## Ended streams -/

theorem Filed.session_of_ended (hf : hub.Filed) (h : hub.Ended id) : hub.session id = none := by
  obtain ⟨l, hl, hphase⟩ := h
  rw [session_of_link hl]
  by_contra hne
  exact hphase (hf.connected hl (Option.isSome_iff_ne_none.mpr hne))

theorem Ended.of_links (h : hub.Ended id) (hlinks : hub'.links = hub.links) : hub'.Ended id := by
  obtain ⟨l, hl, hphase⟩ := h
  refine ⟨l, ?_, hphase⟩
  unfold link
  rw [hlinks]
  exact hl

/-- A stream that has ended stays so. -/
theorem Ended.shift (h : hub.Ended id) (hf : hub.Filed) (hs : Shift hub hub') :
    hub'.Ended id := by
  cases hs with
  | stir hs =>
    obtain ⟨l, hl, hphase⟩ := h
    cases hs with
    | event e =>
      obtain ⟨xs, hxs, _⟩ := conducts_apply hf e l hl
      refine ⟨_, hxs, ?_⟩
      exact List.foldlRecOn _ _ (motive := fun l : Link => l.phase ≠ .connected) hphase
        (fun _ hl x _ => Link.phase_act hl x)
    | channel k f =>
      unfold Ended Run.withChannel
      rw [link_modifyLink, hl]
      split
      · exact ⟨_, rfl, hphase⟩
      · exact ⟨l, rfl, hphase⟩
    | work _ => exact ⟨l, hl, hphase⟩
  | settle ha =>
    subst ha
    exact h.of_links (links_settled _ _)
  | move hm => exact h.of_links (Writes.aside hm.writes).1
  | mark dirty => exact h

theorem Ended.reaches (h : hub.Ended id) (hk : hub.Kept) (hr : hub.Reaches hub') :
    hub'.Ended id := by
  induction hr with
  | refl => exact h
  | tail hr hs ih => exact ih.shift (hk.reaches hr).filed hs

/-- Where no exporter is registered on a link, what happens there changes no exporter and no tree,
unless a startup message comes in time and has a usable name. With such a name the exporter is
registered; with another one its stream ends, and then none is ever registered on the link. -/
structure Admission (hub : Hub) (id : Nat) : Prop where
  aside : ∀ {e : Event}, e.link? = some id →
    (∀ name version, e = .exporterSends id (.startup name version) →
      hub.Refuses name ∨ hub.Ended id) → OnlyLink id hub (hub.apply e)
  accepted : ∀ {name : String}, ¬ hub.Refuses name → ∀ version l, hub.link id = some l →
    l.phase = .connected → (hub.apply (.exporterSends id (.startup name version))).session id =
      some ⟨name, version, SortedMap.empty⟩
  refused : ∀ {name : String}, hub.Refuses name → ∀ version l, hub.link id = some l →
    l.phase = .connected →
      ∃ l', (hub.apply (.exporterSends id (.startup name version))).link id = some l' ∧
        l'.phase = .ending ∧
        l'.refusal = some (if name = "" then .emptyName else .duplicate name)
  ended : hub.Ended id → ∀ hub', hub.Reaches hub' → hub'.Ended id ∧ hub'.session id = none

theorem Kept.admission (h : hub.Kept) (hnone : hub.session id = none) : hub.Admission id := by
  have hstartup : ∀ (name version : String) (l : Link), hub.link id = some l →
      l.phase = .connected → hub.apply (.exporterSends id (.startup name version)) =
        hub.register id name version := by
    intro name version l hl hphase
    have hunregistered : l.session = none := (session_of_link hl).symm.trans hnone
    unfold apply hearExporter
    simp [hl, hphase, hunregistered]
  refine ⟨fun he hrefused => onlyLink_apply hnone he hrefused, ?_, ?_, ?_⟩
  · intro name hfree version l hl hphase
    rw [hstartup name version l hl hphase, register_of_free hfree, session_modifyLink,
      if_pos rfl, hl]
    rfl
  · intro name hrefuses version l hl hphase
    rw [hstartup name version l hl hphase, register_refused hrefuses, link_modifyLink,
      if_pos rfl, hl]
    exact ⟨_, rfl, rfl, rfl⟩
  · intro hended hub' hr
    have hended' := hended.reaches h hr
    exact ⟨hended', (h.reaches hr).filed.session_of_ended hended'⟩

end Hub

/-! ## Courses -/

namespace Station

variable {settings : HubSettings} {directory : Option StateDirectory} {start s : Station}
  {turns : List Turn}

/-- The hubs of a course, also when a command is done with, are among those that the first hub may
come to. -/
theorem Course.reaches (h : Station.start settings directory = .ok start)
    (hc : Course start turns s) : start.hub.Reaches s.hub ∧
      ∀ turn ∈ turns, ∀ a ∈ turn.attempts, start.hub.Reaches a.hub := by
  induction hc with
  | start => exact ⟨.refl, fun turn ht => by cases ht⟩
  | @step past s turn t hc hs ih =>
    obtain ⟨hn, hf⟩ := hc.filed h
    suffices hlast : s.hub.Reaches t.hub ∧ ∀ a ∈ turn.attempts, s.hub.Reaches a.hub by
      refine ⟨ih.1.trans hlast.1, ?_⟩
      intro turn' ht a ha
      rcases List.mem_append.mp ht with hold | hnew
      · exact ih.2 turn' hold a ha
      · cases List.mem_singleton.mp hnew
        exact ih.1.trans (hlast.2 a ha)
    rcases hs.passage hn hf with ⟨op, _, hp⟩ | ⟨_, hnone, dirty, hd⟩
    · exact hp.reaches
    · rw [hd, hnone]
      exact ⟨.single (.mark dirty), fun a ha => by cases ha⟩

/-- Throughout a course, and whatever a hub comes to in between, the trees of the exporters are
arranged, reports of the classes that are filed leave them as they are, and so does an exporter
that is not registered, be it that its name is empty or in use. -/
theorem Course.resource_trees (h : Station.start settings directory = .ok start)
    (hc : Course start turns s) :
    (start.hub.Reaches s.hub ∧ ∀ turn ∈ turns, ∀ a ∈ turn.attempts, start.hub.Reaches a.hub) ∧
      ∀ hub, start.hub.Reaches hub → hub.Arranged ∧ hub.FilesReports ∧
        ∀ id, hub.session id = none → hub.Admission id := by
  refine ⟨hc.reaches h, ?_⟩
  intro hub hr
  obtain ⟨places, hhub, _⟩ := start_ok h
  have hkept : hub.Kept := (hhub ▸ Hub.kept_new settings places : start.hub.Kept).reaches hr
  exact ⟨hkept.arranged, hkept.filesReports, fun id hnone => hkept.admission hnone⟩

/-- In the small laboratory the relay is filed under its path. A second exporter of the same name
changes nothing but its own link. -/
theorem resource_trees_lab :
    (∃ x ∈ lab.hub.published, x.path = ⟨"lab", "rack", "PowerPort", "relay"⟩) ∧
      lab.hub.Arranged ∧
      Hub.OnlyLink 1 (lab.hub.apply .exporterOpens)
        ((lab.hub.apply .exporterOpens).apply (.exporterSends 1 (.startup "lab" "2"))) := by
  have hstart : Station.start ⟨1000, 1000⟩ none = .ok empty := rfl
  have hrelay : lab.hub.published.any
      (fun x => x.path == ⟨"lab", "rack", "PowerPort", "relay"⟩) = true := by decide +kernel
  obtain ⟨x, hx, hpath⟩ := List.any_eq_true.mp hrelay
  have hused : ((lab.hub.apply .exporterOpens).linkOf "lab").isSome = true := by decide +kernel
  have hnone : (lab.hub.apply .exporterOpens).session 1 = none := by decide +kernel
  obtain ⟨⟨hreaches, _⟩, hall⟩ := Course.resource_trees hstart (course_play empty labScenes)
  have hopened := hreaches.tail (.stir (.event .exporterOpens))
  refine ⟨⟨x, hx, beq_iff_eq.mp hpath⟩, (hall _ hreaches).1, ?_⟩
  refine ((hall _ hopened).2.2 1 hnone).aside rfl ?_
  intro name version he
  cases he
  exact Or.inl (Or.inr (Hub.linkOf_isSome_iff.mp hused))

end Station

end BoardFarm
