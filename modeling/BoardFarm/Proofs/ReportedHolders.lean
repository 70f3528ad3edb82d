import BoardFarm.Proofs.HandleOrigins
import BoardFarm.Proofs.Trials

/-!
# Where holders come from

A free resource gets a holder in two ways only: a command for this holder is confirmed, or its
exporter reports the holder. So while an operation releases resources, every holder that comes up
has been reported in one of the pauses.

* `Hub.Reports`: an event by which the exporter of a handle reports its resource.
* `Hub.holder_apply`, `Hub.holder_applyAll`: events set holders by such reports only.
* `Hub.Trials.holder`: the same for the pauses of releases.
* `Hub.Frees`, `Hub.Trials.frees`: what confirmed releases leave free.
-/

namespace BoardFarm

namespace Hub

/-- An event by which the exporter of a published handle reports a holder of its resource. -/
inductive Reports (hub : Hub) (x : Handle) (owner : String) : Event → Prop
  | report {id : Nat} {s : ExporterSession} {r : ResourceReport} (hs : hub.session id = some s)
      (hname : s.name = x.path.exporter)
      (hfiled : s.find? x.path.group x.path.name = some x)
      (haddress : r.address = some (x.path.group, x.path.name)) (hcls : r.cls = x.path.cls)
      (howner : (ResourceRecord.ofReport r).acquired = some owner) :
      Reports hub x owner (.exporterSends id (.resource r))

/-- One of some events is such a report. -/
def Hears (hub : Hub) (events : List Event) (x : Handle) (owner : String) : Prop :=
  ∃ before e after, events = before ++ e :: after ∧ Reports (hub.applyAll before) x owner e

/-- Such a report arrives while a command waits for its answer. -/
def HearsDuring (hub : Hub) (a : Attempt) (x : Handle) (owner : String) : Prop :=
  ∃ id events, hub.linkOf a.handle.path.exporter = some id ∧
    a = hub.attempt a.handle a.place events ∧
    Hears (hub.queued id a.handle a.place) events x owner

/-- A handle has a record, and no other published handle has the same. -/
structure OwnsRecord (hub : Hub) (x : Handle) : Prop where
  serial : x.serial < hub.records.size
  alone : ∀ y ∈ hub.published, y.serial = x.serial → y = x

variable {hub hub₁ hub' : Hub} {x : Handle} {owner : String}

theorem OwnsRecord.exchange {tells : Bool} {l : List Attempt} (h : hub.OwnsRecord x)
    (hf : hub.Filed) (hx : Exchange tells hub l hub') : hub'.OwnsRecord x := by
  obtain ⟨hsize, hold⟩ := hx.published_of_serial hf
  refine ⟨Nat.lt_of_lt_of_le h.serial hsize, ?_⟩
  intro y hy he
  exact h.alone y (hold y hy (by rw [he]; exact h.serial)) he

theorem Filed.ownsRecord (hf : hub.Filed) (hx : x ∈ hub.published) : hub.OwnsRecord x :=
  ⟨hf.serials hx, fun _ hy he => hf.distinct hy hx he⟩

/-! ## Records -/

theorem holder_of_records (h : hub'.records = hub.records) (x : Handle) :
    hub'.holder x = hub.holder x := by
  unfold holder record
  rw [h]

/-- A record that is changed by itself. -/
theorem holder_modifyRecord (hub : Hub) (y x : Handle) (f : ResourceRecord → ResourceRecord) :
    (hub.modifyRecord y f).holder x = hub.holder x ∨
      y.serial = x.serial ∧ ∃ r, (hub.modifyRecord y f).holder x = (f r).acquired := by
  unfold holder record modifyRecord
  dsimp only
  rw [SortedMap.get?_modify]
  split
  · rename_i he
    cases hub.records.get? x.serial with
    | none => exact Or.inl rfl
    | some r => exact Or.inr ⟨he, r, rfl⟩
  · exact Or.inl rfl

/-- A new record leaves the old ones alone. -/
theorem holder_publishNew (hx : x.serial < hub.records.size) (id : Nat) (s : ExporterSession)
    (group name : String) (r : ResourceRecord) :
    (hub.publishNew id s group name r).holder x = hub.holder x := by
  show ((hub.records.insert hub.records.size r).get? x.serial |>.getD noRecord).acquired = _
  rw [SortedMap.get?_insert, if_neg (by omega)]
  rfl

theorem holder_withdraw (id : Nat) (s : ExporterSession) (group name : String) :
    (hub.withdraw id s group name).holder x = hub.holder x := by
  cases hfind : s.find? group name with
  | none =>
    unfold withdraw
    rw [hfind]
  | some y =>
    rw [holder_of_records (records_withdraw id hfind) x]
    exact holder_orphanIfHeld hub y x

theorem holder_withdrawAll (id : Nat) : (hub.withdrawAll id).holder x = hub.holder x := by
  unfold withdrawAll
  split
  · rfl
  · rename_i s _
    refine List.foldlRecOn _ _ (motive := fun hub₁ : Hub => hub₁.holder x = hub.holder x) rfl ?_
    exact fun hub₁ h₁ y _ => (holder_withdraw id s y.path.group y.path.name).trans h₁

theorem holder_disconnect (id : Nat) (finish : Link → Link) :
    (hub.disconnect id finish).holder x = hub.holder x := by
  unfold disconnect
  split
  · rfl
  · split
    · exact holder_withdrawAll id
    · rfl

/-! ## Reports -/

/-- A record that is taken over names the holder of the handle under which it is filed, if that has
the class of the record; other holders stay. -/
theorem holder_publish (hx : hub.OwnsRecord x) {id : Nat} {s : ExporterSession}
    (hs : hub.session id = some s) {group name : String} {r : ResourceRecord}
    (h : (hub.publish id s group name r).holder x = some owner) :
    hub.holder x = some owner ∨
      s.find? group name = some x ∧ r.cls = x.path.cls ∧ r.acquired = some owner := by
  cases hfind : s.find? group name with
  | none =>
    rw [publish_of_none hfind, holder_publishNew hx.serial] at h
    exact Or.inl h
  | some y =>
    have hy : y ∈ hub.published := mem_published_iff.mpr ⟨id, s, group, name, hs, hfind⟩
    by_cases hcls : y.path.cls = r.cls
    · rw [publish_of_cls hfind hcls] at h
      rcases holder_modifyRecord hub y x (fun old => old.merge r) with
        hsame | ⟨hserial, old, hnew⟩
      · exact Or.inl (hsame ▸ h)
      · obtain rfl := hx.alone y hy hserial
        exact Or.inr ⟨rfl, hcls.symm, hnew.symm.trans h⟩
    · have hsize : x.serial < (hub.orphanIfHeld y).records.size := by
        rw [orphanIfHeld, size_modifyRecord]
        exact hx.serial
      rw [publish_of_other_cls hfind hcls, holder_publishNew hsize, holder_orphanIfHeld] at h
      exact Or.inl h

theorem holder_hearExporter (hf : hub.Filed) (hx : hub.OwnsRecord x) (id : Nat)
    (m : ExporterMessage) (h : (hub.hearExporter id m).holder x = some owner) :
    hub.holder x = some owner ∨ Reports hub x owner (.exporterSends id m) := by
  unfold hearExporter at h
  split at h
  · exact Or.inl h
  · rename_i l hl
    split at h
    · exact Or.inl h
    · split at h
      · exact Or.inl h
      · unfold register at h
        dsimp only at h
        split at h
        · exact Or.inl h
        · split at h <;> exact Or.inl h
      · rename_i r s hls
        have hs : hub.session id = some s := session_eq_some_iff.mpr ⟨l, hl, hls⟩
        unfold report at h
        split at h
        · exact Or.inl h
        · rename_i group name haddress
          split at h
          · rw [holder_withdraw] at h
            exact Or.inl h
          · rcases holder_publish hx hs h with hold | ⟨hfind, hcls, hacquired⟩
            · exact Or.inl hold
            · obtain ⟨hname, rfl, rfl⟩ := hf.paths hs hfind
              exact Or.inr (.report hs hname.symm hfind haddress hcls hacquired)
      · exact Or.inl h
      · exact Or.inl h
      · exact Or.inl h

/-- An event sets a holder only as a report of the exporter. -/
theorem holder_apply (hf : hub.Filed) (hx : hub.OwnsRecord x) (e : Event)
    (h : (hub.apply e).holder x = some owner) :
    hub.holder x = some owner ∨ Reports hub x owner e := by
  cases e with
  | exporterSends id m => exact holder_hearExporter hf hx id m h
  | exporterEnds id => exact Or.inl ((holder_disconnect id _).symm.trans h)
  | exporterLeaves id => exact Or.inl ((holder_disconnect id _).symm.trans h)
  | _ => exact Or.inl h

theorem holder_applyAll {events : List Event} (hf : hub.Filed) (hx : hub.OwnsRecord x)
    (h : (hub.applyAll events).holder x = some owner) :
    hub.holder x = some owner ∨ Hears hub events x owner := by
  induction events generalizing hub with
  | nil => exact Or.inl h
  | cons e rest ih =>
    have hone : Exchange true hub [] (hub.apply e) := Exchange.refl.stir (.event e)
    rcases ih (hf.apply e) (hx.exchange hf hone) h with hold | ⟨before, e', after, rfl, hr⟩
    · rcases holder_apply hf hx e hold with hold | hr
      · exact Or.inl hold
      · exact Or.inr ⟨[], e, rest, rfl, hr⟩
    · exact Or.inr ⟨e :: before, e', after, rfl, hr⟩

/-! ## Commands -/

theorem holder_attempt (hf : hub.Filed) (hx : hub.OwnsRecord x) {a : Attempt} {events : List Event}
    (ha : a = hub.attempt a.handle a.place events) (h : a.hub.holder x = some owner) :
    hub.holder x = some owner ∨ HearsDuring hub a x owner := by
  cases hid : hub.linkOf a.handle.path.exporter with
  | none =>
    rw [ha, attempt_of_none _ _ hid] at h
    exact Or.inl h
  | some id =>
    have hqueued : Exchange true hub [] (hub.queued id a.handle a.place) :=
      Exchange.refl.stir (.channel id _)
    have hwaited : ((hub.queued id a.handle a.place).applyAll events).holder x = some owner := by
      rw [ha, attempt_of_some _ _ hid] at h
      exact h
    exact (holder_applyAll (hqueued.filed hf) (hx.exchange hf hqueued) hwaited).imp_right
      (fun hears => ⟨id, events, hid, ha, hears⟩)

/-- A confirmed release leaves the resource free. -/
theorem holder_of_released {tells : Bool} {a : Attempt} (hplace : a.place = none)
    (hdone : a.outcome = .done) : (a.settled tells).holder a.handle = none := by
  unfold Attempt.settled
  rw [hdone, hplace]
  show ((a.hub.records.modify a.handle.serial _).get? a.handle.serial |>.getD noRecord).acquired = _
  rw [SortedMap.get?_modify, if_pos rfl]
  cases a.hub.records.get? a.handle.serial <;> rfl

/-- The outcome of a release sets no holder. -/
theorem holder_settled {tells : Bool} {a : Attempt} (hplace : a.place = none)
    (h : (a.settled tells).holder x = some owner) : a.hub.holder x = some owner := by
  unfold Attempt.settled at h
  split at h
  · rcases holder_modifyRecord a.hub a.handle x (fun r => { r with acquired := a.place }) with
      hsame | ⟨_, r, hnew⟩
    · exact hsame ▸ h
    · rw [hnew, hplace] at h
      cases h
  · split at h <;> exact h

/-- Releases in a row set no holders; what has one in the end and had another or none before was
reported by its exporter in one of the pauses. -/
theorem Trials.holder {l : List Attempt} (h : Trials hub l hub') (hf : hub.Filed)
    (hx : hub.OwnsRecord x) (hreleases : ∀ a ∈ l, a.place = none)
    (howner : hub'.holder x = some owner) :
    hub.holder x = some owner ∨ ∃ e ∈ hub.tried true l, HearsDuring e.1 e.2 x owner := by
  induction h with
  | nil => exact Or.inl howner
  | @cons hub hub' l y place events _ ih =>
    have hone : Exchange true hub ([] ++ [hub.attempt y place events])
        ((hub.attempt y place events).settled true) :=
      (exchange_attempt hub y place events true).settle
    rcases ih (hone.filed hf) (hx.exchange hf hone)
      (fun a ha => hreleases a (List.mem_cons_of_mem _ ha)) howner with hold | ⟨e, he, hears⟩
    · have ha : hub.attempt y place events = hub.attempt
          (hub.attempt y place events).handle (hub.attempt y place events).place events := by simp
      rcases holder_attempt hf hx ha (holder_settled (hreleases _ List.mem_cons_self) hold) with
        hold | hears
      · exact Or.inl hold
      · exact Or.inr ⟨_, List.mem_cons_self, hears⟩
    · exact Or.inr ⟨e, List.mem_cons_of_mem _ he, hears⟩

/-- Each confirmed release of a row leaves its resource free. If the resource has a holder in the
end, a later command of the row has waited while its exporter reported this holder. -/
def Frees (l : List Attempt) (hub' : Hub) : Prop :=
  ∀ before a later, l = before ++ a :: later → a.outcome = .done →
    (a.settled true).holder a.handle = none ∧
      ∀ owner, hub'.holder a.handle = some owner →
        ∃ e ∈ (a.settled true).tried true later, HearsDuring e.1 e.2 a.handle owner

theorem Trials.frees {first l : List Attempt} (h : Trials hub (first ++ l) hub') (hf : hub.Filed)
    (hplace : ∀ a ∈ l, a.place = none) (howns : ∀ a ∈ l, hub.OwnsRecord a.handle) :
    Frees l hub' := by
  intro before a later hl hdone
  subst hl
  rw [← List.append_assoc] at h
  obtain ⟨mid, events, hpast, ha, hrest⟩ := h.split
  have ha' : a ∈ before ++ a :: later := by simp
  have hfree : (a.settled true).holder a.handle = none :=
    holder_of_released (hplace a ha') hdone
  refine ⟨hfree, fun owner howner => ?_⟩
  -- the rest of the row starts in a hub in which the resource is free
  have hwait : Exchange true mid [] a.hub := by
    rw [ha]
    exact exchange_attempt ..
  have hone := (hpast.exchange.trans hwait).settle
  have hreleases : ∀ b ∈ later, b.place = none := fun b hb =>
    hplace b (by simp [hb])
  rcases hrest.holder (hone.filed hf) ((howns a ha').exchange hf hone) hreleases howner with
    hheld | hears
  · rw [hfree] at hheld
    cases hheld
  · exact hears

theorem Frees.of_records {l : List Attempt} (h : Frees l hub₁) (hr : hub'.records = hub₁.records) :
    Frees l hub' := by
  intro before a later hl hdone
  obtain ⟨hfree, hlast⟩ := h before a later hl hdone
  refine ⟨hfree, fun owner howner => ?_⟩
  rw [holder_of_records hr] at howner
  exact hlast owner howner

end Hub

/-! ## A laboratory with two resources -/

namespace Station

/-- A report of one of two resources of a laboratory. -/
def twinReport (name holder : String) : ExporterMessage :=
  .resource ⟨some ("rack", name), "PowerPort", SortedMap.empty, holder, true⟩

/-- An exporter publishes two resources. A user, who follows resources, adds a place that claims
both. -/
def twinScenes : List Scene :=
  [⟨0, .event .exporterOpens, []⟩,
   ⟨0, .event (.exporterSends 0 (.startup "lab" "1")), []⟩,
   ⟨1, .event (.exporterSends 0 (twinReport "relay" "")), []⟩,
   ⟨1, .event (.exporterSends 0 (twinReport "switch" "")), []⟩,
   ⟨2, .event (.clientOpens (some "desk")), []⟩,
   ⟨2, .message 0 (.startup "alice" "1"), []⟩,
   ⟨3, .message 0 (.subscribe none (some true)), []⟩,
   ⟨4, .request (Identifier.ofNat .reservation 1) none (.addPlace "bench"), []⟩,
   ⟨5, .request (Identifier.ofNat .reservation 2) none
      (.addMatch "bench" "lab/rack/PowerPort" none), []⟩]

/-- The laboratory with two resources behind its scenes. -/
def twin : Station := (empty.play twinScenes).2

end Station

end BoardFarm
