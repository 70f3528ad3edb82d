import BoardFarm.Proofs.ResourceEvents

/-!
# How published handles come and go

A handle that an event publishes has a record that is new, so a handle that has left the tree
never comes back. The flag of an orphan is set only when its handle leaves the tree, and then
only if the record names a holder.

* `Hub.Turnover`: what events do to handles, flags and waiting work.
* `Hub.Aside`: changes that leave them alone.
* `Hub.turnover_apply`, `Hub.Stir.turnover`: every event is a turnover, and so is every stir.
* `Hub.Exchange.published_of_serial`: what has left the tree does not come back.
-/

namespace BoardFarm.Hub

/-- A handle leaves the tree. -/
def Drops (hub hub' : Hub) (x : Handle) : Prop := x ∈ hub.published ∧ x ∉ hub'.published

/-- New records are those of newly published handles. A handle with an old record is published
only if it was so before, and is an orphan from now on if it drops out while it is held. What
waits to be attached has been published just now or has waited before. -/
structure Turnover (hub hub' : Hub) : Prop where
  size : hub.records.size ≤ hub'.records.size
  old : ∀ {x : Handle}, x ∈ hub'.published → x.serial < hub.records.size → x ∈ hub.published
  new : ∀ {x : Handle}, hub.records.size ≤ x.serial → x.serial < hub'.records.size →
    hub'.isOrphaned x = false ∧ ∃ y ∈ hub'.published, y.serial = x.serial
  flags : ∀ {x : Handle}, x.serial < hub.records.size → (hub'.isOrphaned x = true ↔
    hub.isOrphaned x = true ∨
      ∃ y, Drops hub hub' y ∧ y.serial = x.serial ∧ (hub.holder y).isSome)
  queued : ∀ {id : Nat} {x : Handle}, (id, FollowUp.added x) ∈ hub'.followUps →
    (id, FollowUp.added x) ∈ hub.followUps ∨
      x ∈ hub'.published ∧ hub.records.size ≤ x.serial

/-- A change that leaves tree and flags alone and brings no work. -/
structure Aside (hub hub' : Hub) : Prop where
  filed : hub.Filed → hub'.Filed
  published : ∀ x, x ∈ hub'.published ↔ x ∈ hub.published
  size : hub'.records.size = hub.records.size
  flags : ∀ x, hub'.isOrphaned x = hub.isOrphaned x
  followUps : ∀ w ∈ hub'.followUps, w ∈ hub.followUps

theorem Turnover.isOrphaned_of_stays {hub hub' : Hub} (h : Turnover hub hub') {x : Handle}
    (hx : x.serial < hub.records.size)
    (hstays : ∀ y, Drops hub hub' y → y.serial ≠ x.serial) :
    hub'.isOrphaned x = true ↔ hub.isOrphaned x = true := by
  rw [h.flags hx]
  constructor
  · rintro (hset | ⟨y, hy, hserial, _⟩)
    · exact hset
    · exact absurd hserial (hstays y hy)
  · exact Or.inl

/-- The flag of a handle that drops out says whether it was held. -/
theorem Turnover.isOrphaned_of_drops {hub hub' : Hub} (h : Turnover hub hub') (hf : hub.Filed)
    {x y : Handle} (hx : x.serial < hub.records.size) (hflag : hub.isOrphaned x = false)
    (hy : Drops hub hub' y) (hserial : y.serial = x.serial) :
    hub'.isOrphaned x = true ↔ (hub.holder y).isSome := by
  rw [h.flags hx]
  constructor
  · rintro (hset | ⟨z, hz, hz', hheld⟩)
    · rw [hflag] at hset
      cases hset
    · have he : z = y := hf.distinct hz.1 hy.1 (hz'.trans hserial.symm)
      rw [he] at hheld
      exact hheld
  · exact fun hheld => Or.inr ⟨y, hy, hserial, hheld⟩

/-! ## Records -/

theorem size_modifyRecord (hub : Hub) (x : Handle) (f : ResourceRecord → ResourceRecord) :
    (hub.modifyRecord x f).records.size = hub.records.size :=
  SortedMap.size_mapValues ..

/-- A change of a record that keeps its flag. -/
theorem isOrphaned_modifyRecord {hub : Hub} {x : Handle} {f : ResourceRecord → ResourceRecord}
    (hf : ∀ r, (f r).orphaned = r.orphaned) (y : Handle) :
    (hub.modifyRecord x f).isOrphaned y = hub.isOrphaned y := by
  unfold isOrphaned record modifyRecord
  dsimp only
  rw [SortedMap.get?_modify]
  split
  · cases hub.records.get? y.serial with
    | none => rfl
    | some r => exact hf r
  · rfl

theorem record_orphanIfHeld (hub : Hub) (x y : Handle) :
    (hub.orphanIfHeld x).record y = if x.serial = y.serial then
        { hub.record y with orphaned := (hub.record y).orphaned || (hub.record y).acquired.isSome }
      else hub.record y := by
  unfold orphanIfHeld modifyRecord record
  dsimp only
  rw [SortedMap.get?_modify]
  split
  · cases hub.records.get? y.serial <;> rfl
  · rfl

theorem isOrphaned_orphanIfHeld (hub : Hub) (x y : Handle) :
    (hub.orphanIfHeld x).isOrphaned y = true ↔
      hub.isOrphaned y = true ∨ x.serial = y.serial ∧ (hub.holder x).isSome := by
  unfold isOrphaned holder
  rw [record_orphanIfHeld]
  split
  · rename_i he
    have hrecord : hub.record x = hub.record y := by
      unfold record
      rw [he]
    simp [hrecord, he]
  · rename_i hne
    simp [hne]

theorem holder_orphanIfHeld (hub : Hub) (x y : Handle) :
    (hub.orphanIfHeld x).holder y = hub.holder y := by
  unfold holder
  rw [record_orphanIfHeld]
  split <;> rfl

theorem isOrphaned_of_records {hub hub' : Hub} (h : hub'.records = hub.records) (x : Handle) :
    hub'.isOrphaned x = hub.isOrphaned x := by
  unfold isOrphaned record
  rw [h]

/-! ## Changes aside -/

theorem Aside.of_unmoved {hub hub' : Hub} (hfiled : hub.Filed → hub'.Filed)
    (hu : Unmoved hub hub') : Aside hub hub' := by
  have hsize : hub'.records.size = hub.records.size := by rw [hu.records]
  have hwork : ∀ w ∈ hub'.followUps, w ∈ hub.followUps := by
    rw [hu.followUps]
    exact fun w hw => hw
  exact ⟨hfiled, hu.published, hsize, isOrphaned_of_records hu.records, hwork⟩

/-- Links and records decide about the tree. -/
theorem Aside.of_same {hub hub' : Hub} (hlinks : hub'.links = hub.links)
    (hrecords : hub'.records = hub.records)
    (hwork : ∀ w ∈ hub'.followUps, w ∈ hub.followUps) : Aside hub hub' := by
  have hpublished : hub'.published = hub.published := published_of_links hlinks
  have hsize : hub'.records.size = hub.records.size := by rw [hrecords]
  exact ⟨fun hf => hf.shrink (.of_eq hlinks hrecords), fun x => by rw [hpublished], hsize,
    isOrphaned_of_records hrecords, hwork⟩

/-- A change of a record that keeps its flag. -/
theorem aside_modifyRecord (hub : Hub) (x : Handle) {f : ResourceRecord → ResourceRecord}
    (hf : ∀ r, (f r).orphaned = r.orphaned) : Aside hub (hub.modifyRecord x f) :=
  ⟨fun hfiled => hfiled.shrink (shrinks_modifyRecord hub x f), fun _ => Iff.rfl,
    size_modifyRecord hub x f, isOrphaned_modifyRecord hf, fun _ hw => hw⟩

theorem Aside.trans {hub hub₁ hub₂ : Hub} (h : Aside hub hub₁) (h' : Aside hub₁ hub₂) :
    Aside hub hub₂ :=
  ⟨fun hf => h'.filed (h.filed hf), fun x => (h'.published x).trans (h.published x),
    h'.size.trans h.size, fun x => (h'.flags x).trans (h.flags x),
    fun w hw => h.followUps w (h'.followUps w hw)⟩

theorem aside_settled (tells : Bool) (a : Attempt) : Aside a.hub (a.settled tells) := by
  unfold Attempt.settled
  split
  · exact aside_modifyRecord a.hub a.handle (fun _ => rfl)
  · split <;> exact .of_same rfl rfl (fun _ hw => hw)

theorem Writes.followUps {hub hub' : Hub} (hw : Writes hub hub') :
    hub'.followUps = hub.followUps := by
  induction hw with
  | refl => rfl
  | tail _ hw ih => cases hw <;> exact ih

theorem Move.aside {o : Occasion} {hub hub' : Hub} (hm : Move o hub hub') : Aside hub hub' := by
  obtain ⟨hlinks, hrecords⟩ := Writes.aside hm.writes
  have hwork := Writes.followUps hm.writes
  exact .of_same hlinks hrecords (fun w hw => hwork ▸ hw)

theorem Aside.turnover {hub hub' : Hub} (h : Aside hub hub') : Turnover hub hub' := by
  refine ⟨Nat.le_of_eq h.size.symm, fun hx _ => (h.published _).mp hx, ?_, ?_, ?_⟩
  · intro x hlow hhigh
    have hsize := h.size
    omega
  · intro x _
    rw [h.flags]
    constructor
    · exact Or.inl
    · rintro (hold | ⟨y, ⟨hy, hy'⟩, _⟩)
      · exact hold
      · exact absurd ((h.published y).mpr hy) hy'
  · exact fun hx => Or.inl (h.followUps _ hx)

/-! ## Publication -/

theorem find?_of_slot {hub : Hub} (h : hub.Filed) {id : Nat} {s : ExporterSession}
    (hs : hub.session id = some s) {group name : String} {x : Handle} (hx : x ∈ hub.published)
    (hslot : x.path.slot = [s.name, group, name]) : s.find? group name = some x := by
  obtain ⟨id', t, g, n, ht, hf⟩ := mem_published_iff.mp hx
  rw [slot_of_find? h ht hf] at hslot
  simp only [List.cons.injEq, and_true] at hslot
  obtain ⟨hname, rfl, rfl⟩ := hslot
  have hid : id' = id := h.names ht hs hname
  subst hid
  rw [hs] at ht
  cases ht
  exact hf

/-- A new handle comes into the tree; the handle whose slot it takes drops out and has been
flagged if it was held. -/
theorem turnover_publishNew {hub hub₁ : Hub} (hf : hub.Filed) (hf₁ : hub₁.Filed)
    (hlinks : hub₁.links = hub.links) (hfollowUps : hub₁.followUps = hub.followUps)
    (hsize : hub₁.records.size = hub.records.size) {id : Nat} {s : ExporterSession}
    (hs : hub.session id = some s) {group name : String} {r : ResourceRecord}
    (hr : r.orphaned = false)
    (hflags : ∀ x, hub₁.isOrphaned x = true ↔ hub.isOrphaned x = true ∨
      ∃ y, s.find? group name = some y ∧ y.serial = x.serial ∧ (hub.holder y).isSome) :
    Turnover hub (hub₁.publishNew id s group name r) := by
  have hs₁ : hub₁.session id = some s := (session_of_links hlinks id).trans hs
  have hpublished : ∀ x, x ∈ (hub₁.publishNew id s group name r).published ↔
      x = ⟨hub.records.size, ⟨s.name, group, r.cls, name⟩⟩ ∨
        x ∈ hub.published ∧ x.path.slot ≠ [s.name, group, name] := by
    intro x
    rw [mem_published_publishNew hf₁ hs₁ group name r, published_of_links hlinks, hsize]
  have hsize' : (hub₁.publishNew id s group name r).records.size = hub.records.size + 1 := by
    rw [← hsize]
    exact SortedMap.size_insert r hf₁.records.get?_size
  have hrecord : ∀ x, (hub₁.publishNew id s group name r).record x =
      if hub.records.size = x.serial then r else hub₁.record x := by
    intro x
    show ((hub₁.records.insert hub₁.records.size r).get? x.serial).getD noRecord = _
    rw [SortedMap.get?_insert, hsize]
    split <;> rfl
  -- the handle that drops out is the one that was filed in the slot
  have hdrops : ∀ y, Drops hub (hub₁.publishNew id s group name r) y ↔
      s.find? group name = some y := by
    intro y
    unfold Drops
    rw [hpublished]
    constructor
    · rintro ⟨hy, hnot⟩
      apply find?_of_slot hf hs hy
      by_contra hne
      exact hnot (Or.inr ⟨hy, hne⟩)
    · intro hy
      have hmem : y ∈ hub.published := mem_published_iff.mpr ⟨id, s, group, name, hs, hy⟩
      refine ⟨hmem, ?_⟩
      rintro (rfl | ⟨_, hne⟩)
      · exact absurd (hf.serials hmem) (Nat.lt_irrefl _)
      · exact hne (slot_of_find? hf hs hy)
  refine ⟨by omega, ?_, ?_, ?_, ?_⟩
  · intro x hx hlt
    rcases (hpublished x).mp hx with rfl | ⟨hold, _⟩
    · exact absurd hlt (Nat.lt_irrefl _)
    · exact hold
  · intro x hlow hhigh
    have hserial : hub.records.size = x.serial := by omega
    refine ⟨?_, _, (hpublished _).mpr (Or.inl rfl), hserial⟩
    unfold isOrphaned
    rw [hrecord, if_pos hserial]
    exact hr
  · intro x hlt
    have hsame : (hub₁.publishNew id s group name r).isOrphaned x = hub₁.isOrphaned x := by
      unfold isOrphaned
      rw [hrecord, if_neg (by omega)]
    rw [hsame, hflags]
    simp only [hdrops]
  · intro id' x hx
    have hx' : (id', FollowUp.added x) ∈ hub₁.followUps ++
        [(id, FollowUp.added ⟨hub₁.records.size, ⟨s.name, group, r.cls, name⟩⟩)] := hx
    rw [hfollowUps, hsize] at hx'
    rcases List.mem_append.mp hx' with hold | hnew
    · exact Or.inl hold
    · cases List.mem_singleton.mp hnew
      exact Or.inr ⟨(hpublished _).mpr (Or.inl rfl), Nat.le_refl _⟩

theorem turnover_publish {hub : Hub} (hf : hub.Filed) {id : Nat} {s : ExporterSession}
    (hs : hub.session id = some s) (group name : String) {r : ResourceRecord}
    (hr : r.orphaned = false) : Turnover hub (hub.publish id s group name r) := by
  unfold publish
  split
  · rename_i hnone
    refine turnover_publishNew hf hf rfl rfl rfl hs hr ?_
    intro x
    simp [hnone]
  · rename_i y hy
    split
    · have hmerge : Aside hub (hub.modifyRecord y (fun old => old.merge r)) :=
        aside_modifyRecord hub y (fun old => ResourceRecord.orphaned_merge old r)
      have htold : Aside (hub.modifyRecord y (fun old => old.merge r))
          ((hub.modifyRecord y (fun old => old.merge r)).publishResource y) :=
        .of_same rfl rfl (fun _ hw => hw)
      exact (hmerge.trans htold).turnover
    · have hf₁ : (hub.orphanIfHeld y).Filed := hf.shrink (shrinks_modifyRecord hub y _)
      refine turnover_publishNew hf hf₁ rfl rfl (size_modifyRecord ..) hs hr ?_
      intro x
      rw [isOrphaned_orphanIfHeld]
      simp [hy]

/-! ## Withdrawals -/

/-- What withdrawals do: some handles drop out, and each of them is flagged if it is held. -/
structure Withdrawn (hub : Hub) (l : List Handle) (hub' : Hub) : Prop where
  size : hub'.records.size = hub.records.size
  published : ∀ x, x ∈ hub'.published ↔ x ∈ hub.published ∧ x ∉ l
  before : ∀ x ∈ l, x ∈ hub.published
  holder : ∀ x, hub'.holder x = hub.holder x
  flags : ∀ x, hub'.isOrphaned x = true ↔ hub.isOrphaned x = true ∨
    ∃ y ∈ l, y.serial = x.serial ∧ (hub.holder y).isSome
  followUps : ∀ {id : Nat} {x : Handle}, (id, FollowUp.added x) ∈ hub'.followUps →
    (id, FollowUp.added x) ∈ hub.followUps

theorem withdrawn_withdraw {hub : Hub} (hf : hub.Filed) {id : Nat} {s s₀ : ExporterSession}
    {group name : String} {x : Handle} (hs : hub.session id = some s)
    (hin : s.find? group name = some x) (hfind : s₀.find? group name = some x) :
    Withdrawn hub [x] (hub.withdraw id s₀ group name) := by
  have hx : x ∈ hub.published := mem_published_iff.mpr ⟨id, s, group, name, hs, hin⟩
  have hrecords : (hub.withdraw id s₀ group name).records = (hub.orphanIfHeld x).records :=
    records_withdraw id hfind
  refine ⟨?_, ?_, ?_, ?_, ?_, ?_⟩
  · rw [hrecords]
    exact size_modifyRecord ..
  · intro y
    rw [mem_published_withdraw hf hs hin hfind, List.mem_singleton]
    constructor
    · rintro ⟨hy, hne⟩
      exact ⟨hy, fun he => hne (congrArg (fun z : Handle => z.path.slot) he)⟩
    · rintro ⟨hy, hne⟩
      exact ⟨hy, fun he => hne (hf.eq_of_slot hy hx he)⟩
  · intro y hy
    rw [List.mem_singleton.mp hy]
    exact hx
  · intro y
    rw [← holder_orphanIfHeld hub x y]
    unfold holder record
    rw [hrecords]
  · intro y
    rw [isOrphaned_of_records hrecords, isOrphaned_orphanIfHeld]
    simp
  · intro id' y hy
    unfold withdraw at hy
    rw [hfind] at hy
    have hy' : (id', FollowUp.added y) ∈ hub.followUps ++ [(id, FollowUp.removed x)] := hy
    simpa using hy'

theorem Withdrawn.trans {hub hub₁ hub₂ : Hub} {l l' : List Handle} (h : Withdrawn hub l hub₁)
    (h' : Withdrawn hub₁ l' hub₂) : Withdrawn hub (l ++ l') hub₂ := by
  refine ⟨h'.size.trans h.size, ?_, ?_, fun x => (h'.holder x).trans (h.holder x), ?_,
    fun hx => h.followUps (h'.followUps hx)⟩
  · intro x
    rw [h'.published, h.published, List.mem_append, not_or, and_assoc]
  · intro x hx
    rcases List.mem_append.mp hx with hfirst | hlater
    · exact h.before x hfirst
    · exact ((h.published x).mp (h'.before x hlater)).1
  · intro x
    rw [h'.flags, h.flags, or_assoc]
    simp only [h.holder, List.mem_append, or_and_right, exists_or]

theorem Withdraws.withdrawn {hub hub' : Hub} {l : List Handle} (h : Withdraws hub l hub')
    (hf : hub.Filed) : Withdrawn hub l hub' := by
  induction h with
  | nil hub =>
    refine ⟨rfl, ?_, ?_, fun _ => rfl, ?_, fun hx => hx⟩
    · simp
    · intro x hx
      cases hx
    · simp
  | cons hs hin hfind _ ih =>
    exact (withdrawn_withdraw hf hs hin hfind).trans (ih (hf.shrink (shrinks_withdraw ..)))

theorem Withdrawn.turnover {hub hub₁ hub' : Hub} {l : List Handle} (h : Withdrawn hub l hub₁)
    (hrest : Unmoved hub₁ hub') : Turnover hub hub' := by
  have hpublished : ∀ x, x ∈ hub'.published ↔ x ∈ hub.published ∧ x ∉ l := fun x =>
    (hrest.published x).trans (h.published x)
  have hsize : hub'.records.size = hub.records.size := by rw [hrest.records, h.size]
  refine ⟨Nat.le_of_eq hsize.symm, fun hx _ => ((hpublished _).mp hx).1, ?_, ?_, ?_⟩
  · intro x hlow hhigh
    omega
  · intro x _
    have hdrops : ∀ y, Drops hub hub' y ↔ y ∈ l := by
      intro y
      unfold Drops
      rw [hpublished]
      constructor
      · rintro ⟨hy, hnot⟩
        by_contra hne
        exact hnot ⟨hy, hne⟩
      · exact fun hy => ⟨h.before y hy, fun hp => hp.2 hy⟩
    rw [isOrphaned_of_records hrest.records, h.flags]
    simp only [hdrops]
  · intro id x hx
    rw [hrest.followUps] at hx
    exact Or.inl (h.followUps hx)

/-! ## Events -/

theorem TreeChange.turnover {hub hub' : Hub} (ht : TreeChange hub hub') (hf : hub.Filed)
    (hf' : hub'.Filed) : Turnover hub hub' := by
  cases ht with
  | unmoved hu => exact (Aside.of_unmoved (fun _ => hf') hu).turnover
  | publish hs group name r => exact turnover_publish hf hs group name rfl
  | withdraw hw hrest => exact (hw.withdrawn hf).turnover hrest

theorem turnover_apply {hub : Hub} (hf : hub.Filed) (e : Event) : Turnover hub (hub.apply e) := by
  rcases treeChange_apply hf e with ht | ⟨hlinks, hrecords, hwork⟩
  · exact ht.turnover hf (hf.apply e)
  · exact (Aside.of_same hlinks hrecords (fun w hw => hwork ▸ hw)).turnover

/-- A stir is an event, or it happens aside. -/
theorem Stir.event_or_aside {hub hub' : Hub} (hs : Stir hub hub') :
    (∃ e, hub' = hub.apply e) ∨ Aside hub hub' := by
  cases hs with
  | event e => exact Or.inl ⟨e, rfl⟩
  | channel id f =>
    have hu : Unmoved hub (hub.modifyLink id (fun l => { l with channel := f l.channel })) :=
      unmoved_modifyLink_same (fun _ => rfl)
    exact Or.inr (.of_unmoved (fun hf => (Stir.channel id f).filed hf) hu)
  | work hl => exact Or.inr (.of_same rfl rfl (fun _ hw => hl.subset hw))

theorem Stir.turnover {hub hub' : Hub} (hs : Stir hub hub') (hf : hub.Filed) :
    Turnover hub hub' := by
  rcases hs.event_or_aside with ⟨e, rfl⟩ | ha
  · exact turnover_apply hf e
  · exact ha.turnover

/-- Whatever happens around commands, a handle with an old record is published only if it was so
before. -/
theorem Exchange.published_of_serial {tells : Bool} {hub hub' : Hub} {l : List Attempt}
    (hx : Exchange tells hub l hub') (hf : hub.Filed) :
    hub.records.size ≤ hub'.records.size ∧
      ∀ x ∈ hub'.published, x.serial < hub.records.size → x ∈ hub.published := by
  have hstep : ∀ {hub₁ hub₂ : Hub}, Turnover hub₁ hub₂ →
      (hub.records.size ≤ hub₁.records.size ∧
        ∀ x ∈ hub₁.published, x.serial < hub.records.size → x ∈ hub.published) →
      hub.records.size ≤ hub₂.records.size ∧
        ∀ x ∈ hub₂.published, x.serial < hub.records.size → x ∈ hub.published := by
    rintro hub₁ hub₂ ht ⟨hsize, hold⟩
    refine ⟨Nat.le_trans hsize ht.size, fun x hx hlt => ?_⟩
    exact hold x (ht.old hx (Nat.lt_of_lt_of_le hlt hsize)) hlt
  induction hx with
  | refl => exact ⟨Nat.le_refl _, fun x hx _ => hx⟩
  | stir hx hs ih => exact hstep (hs.turnover (hx.filed hf)) ih
  | settle _ ih => exact hstep (aside_settled tells _).turnover ih

end BoardFarm.Hub
