import BoardFarm.Proofs.ClientCopy
import BoardFarm.Proofs.ResourceEvents

/-!
# Copies of the resources

A client that follows resources can keep a copy of them. Reports, withdrawals and the ends of
exporters keep the copies equal to the table of the published resources. Two things may not: a
confirmed holder is noted in silence, and after a failed release the resource is told as it was
known under the handle, whether that is still published or not. An outcome is faithful if the
copies stand it, and the copies are right throughout a course just if all outcomes are.

* `ClientSession.resourceCopy`, `Hub.Mirrored`: the copies, and when they are right.
* `Attempt.isFaithful`: the outcomes that leave the copies right.
* `Hub.mirrored_settled_iff`: an outcome leaves the copies right just if it is faithful.
* `Station.Course.mirrored_iff`: the copies throughout a course.
* `Station.ghost_relay`: a copy that shows a resource which no exporter publishes.
-/

namespace BoardFarm

theorem Update.intoResources_of_place {u : Update} (h : u.concernsPlaces = true)
    (copy : SortedMap (List String) ResourceView) : u.intoResources copy = copy := by
  cases u with
  | place v => rfl
  | deletedPlace name => rfl
  | resource v => cases h
  | deletedResource path => cases h

namespace ClientSession

/-- The copy of the resources that a client keeps, starting empty behind a number of messages. -/
def resourceCopy (c : ClientSession) (start : Nat) : SortedMap (List String) ResourceView :=
  c.copy Update.intoResources SortedMap.empty start

/-- While the client is connected and follows resources, its copy is a table of resources. -/
def Mirrors (c : ClientSession) (table : SortedMap (List String) ResourceView) : Prop :=
  c.Keeps Update.intoResources SortedMap.empty ClientSession.resources table

variable {c c' : ClientSession} {table : SortedMap (List String) ResourceView}

/-- Messages without news of resources do not change the copy. -/
theorem Mirrors.unaware (h : c.Mirrors table)
    (hconnected : c'.connected = true → c.connected = true)
    (hmark : c'.resources = c.resources) {l : List ClientMessage} (hl : c'.sent = c.sent ++ l)
    (hnews : ∀ u ∈ l.flatMap ClientMessage.updates, u.concernsPlaces = true) :
    c'.Mirrors table := by
  have happ := Keeps.append h hconnected hmark hl
  rw [foldl_ignored (fun u hu => Update.intoResources_of_place (hnews u hu))] at happ
  exact happ

theorem Mirrors.tellResources (h : c.Mirrors table) (u : Update) :
    (c.tellResources u).Mirrors (u.intoResources table) :=
  Keeps.tell h u (fun _ => rfl)

theorem Mirrors.tellPlaces (h : c.Mirrors table) {u : Update} (hu : u.concernsPlaces = true) :
    (c.tellPlaces u).Mirrors table := by
  unfold ClientSession.tellPlaces
  split
  · have hsent : (c.sendUpdates [u]).sent = c.sent ++ [⟨none, [u]⟩] := rfl
    refine h.unaware ?_ rfl hsent ?_
    · exact fun hc => hc
    · simpa using hu
  · exact h

theorem Mirrors.subscribePlaces (h : c.Mirrors table) (enable : Bool) (views : List PlaceView) :
    (c.subscribePlaces enable views).Mirrors table := by
  unfold ClientSession.subscribePlaces
  split
  · exact h
  · obtain ⟨l, hl, hupdates⟩ := c.sent_sendUpdates (views.map Update.place)
    have hsame : (c.sendUpdates (views.map Update.place)).connected = c.connected ∧
        (c.sendUpdates (views.map Update.place)).resources = c.resources := by
      unfold sendUpdates
      split <;> exact ⟨rfl, rfl⟩
    refine h.unaware ?_ hsame.2 hl ?_
    · intro hc
      rw [← hsame.1]
      exact hc
    · rw [hupdates]
      intro u hu
      obtain ⟨v, _, rfl⟩ := List.mem_map.mp hu
      rfl
  · exact h

/-! ## New subscribers -/

theorem flatten_parts {α : Type} {size fuel : Nat} {l : List α} (hsize : 0 < size)
    (hfuel : l.length ≤ fuel) : (parts size fuel l).flatten = l := by
  induction fuel generalizing l with
  | zero =>
    have hempty : l = [] := List.length_eq_zero_iff.mp (by omega)
    rw [hempty]
    rfl
  | succ fuel ih =>
    unfold parts
    split
    · rename_i hempty
      exact (List.isEmpty_iff.mp hempty).symm
    · rename_i hempty
      have hpos : 0 < l.length := by
        rw [List.length_pos_iff]
        intro he
        exact hempty (by rw [he]; rfl)
      rw [List.flatten_cons, ih, List.take_append_drop]
      rw [List.length_drop]
      omega

theorem sent_batches (batches : List (List ResourceView)) (c : ClientSession) :
    ∃ l, (batches.foldl (fun c l => c.sendUpdates (l.map .resource)) c).sent = c.sent ++ l ∧
      l.flatMap ClientMessage.updates = batches.flatten.map Update.resource := by
  induction batches generalizing c with
  | nil => exact ⟨[], by simp, rfl⟩
  | cons batch rest ih =>
    obtain ⟨l, hl, hupdates⟩ := c.sent_sendUpdates (batch.map Update.resource)
    obtain ⟨l', hl', hupdates'⟩ := ih (c.sendUpdates (batch.map Update.resource))
    refine ⟨l ++ l', ?_, ?_⟩
    · rw [List.foldl_cons, hl', hl, List.append_assoc]
    · rw [List.flatMap_append, hupdates, hupdates', List.flatten_cons, List.map_append]

/-- A new subscriber starts with all resources, in batches. -/
theorem Mirrors.subscribeResources (h : c.Mirrors table) (enable : Bool)
    {views : List ResourceView}
    (hviews : (views.map Update.resource).foldl Update.intoResources SortedMap.empty = table) :
    (c.subscribeResources enable views).Mirrors table := by
  unfold ClientSession.subscribeResources
  split
  · exact h
  · obtain ⟨l, hl, hupdates⟩ := sent_batches (parts batchSize views.length views) c
    rw [flatten_parts (by decide) (Nat.le_refl _)] at hupdates
    rw [← hupdates] at hviews
    exact keeps_of_start rfl hl hviews
  · intro hconnected start hstart
    cases hstart

end ClientSession

namespace Hub

/-- Every client that follows resources has a copy of the published ones. -/
def Mirrored (hub : Hub) : Prop :=
  ∀ id c, hub.clients.get? id = some c → c.Mirrors hub.resourceTable

/-- Somebody is connected and follows resources. -/
def Watched (hub : Hub) : Prop :=
  ∃ id c start, hub.clients.get? id = some c ∧ c.connected = true ∧ c.resources = some start

theorem foldl_resourceViews (hub : Hub) :
    (hub.resourceViews.map Update.resource).foldl Update.intoResources SortedMap.empty =
      hub.resourceTable := by
  unfold resourceViews resourceTable SortedMap.ofList
  rw [List.foldl_map, List.foldl_map, List.foldl_map]
  rfl

theorem Mirrored.unmoved {hub hub' : Hub} (h : hub.Mirrored) (hf : hub.Filed) (hf' : hub'.Filed)
    (hu : Unmoved hub hub') : hub'.Mirrored := by
  have htable : hub'.resourceTable = hub.resourceTable := by
    refine resourceTable_congr hf hf' hu.published ?_
    intro x _
    unfold viewOf record
    rw [hu.records]
  intro id c hc
  rw [hu.clients] at hc
  rw [htable]
  exact h id c hc

theorem Mirrored.announced {hub hub' : Hub} (h : hub.Mirrored) {u : Update}
    (hu : Announced u hub hub') : hub'.Mirrored := by
  intro id c hc
  rw [hu.clients] at hc
  obtain ⟨c₀, hc₀, rfl⟩ := SortedMap.get?_mapValues_eq_some_iff.mp hc
  rw [hu.table]
  exact (h id c₀ hc₀).tellResources u

/-- A change of one client by which its copy stays right. -/
theorem Mirrored.withClient {hub : Hub} (h : hub.Mirrored) (id : Nat)
    {f : ClientSession → ClientSession}
    (hf : ∀ c : ClientSession, c.Mirrors hub.resourceTable → (f c).Mirrors hub.resourceTable) :
    (hub.withClient id f).Mirrored := by
  intro id' c hc
  obtain ⟨c₀, hc₀, rfl | rfl⟩ := client_of_withClient hc
  · exact h id' c hc₀
  · exact hf c₀ (h id' c₀ hc₀)

/-! ## Moves -/

theorem resourceTable_aside {hub hub' : Hub} (hlinks : hub'.links = hub.links)
    (hrecords : hub'.records = hub.records) : hub'.resourceTable = hub.resourceTable := by
  unfold resourceTable published sessions viewOf record
  rw [hlinks, hrecords]

/-- Writes of places do not concern the copies of resources. -/
theorem Write.mirrored {hub hub' : Hub} (hw : Write hub hub') (h : hub.Mirrored) :
    hub'.Mirrored := by
  have htell : ∀ u : Update, u.concernsPlaces = true → ∀ id c,
      (hub.tellPlaces u).clients.get? id = some c → c.Mirrors hub.resourceTable := by
    intro u hu id c hc
    obtain ⟨c₀, hc₀, rfl⟩ := SortedMap.get?_mapValues_eq_some_iff.mp hc
    exact (h id c₀ hc₀).tellPlaces hu
  cases hw with
  | store p => exact htell (.place p.view) rfl
  | erase name => exact htell (.deletedPlace name) rfl
  | @tell p _ => exact htell (.place p.view) rfl
  | plan rs b dirty => exact h
  | follow id enable => exact h.withClient id (fun c hc => hc.subscribePlaces enable _)

theorem Writes.mirrored {hub hub' : Hub} (hw : Writes hub hub') (h : hub.Mirrored) :
    hub'.Mirrored := by
  induction hw with
  | refl => exact h
  | tail _ hw ih => exact hw.mirrored ih

/-! ## Events -/

theorem Withdraws.mirrored {hub hub' : Hub} {l : List Handle} (hw : Withdraws hub l hub')
    (hf : hub.Filed) (h : hub.Mirrored) : hub'.Mirrored := by
  induction hw with
  | nil => exact h
  | cons hs hin hfind _ ih =>
    exact ih (hf.shrink (shrinks_withdraw ..)) (h.announced (announced_withdraw hf hs hin hfind))

/-- Whatever an exporter does to the tree is announced. -/
theorem TreeChange.mirrored {hub hub' : Hub} (ht : TreeChange hub hub') (hf : hub.Filed)
    (hf' : hub'.Filed) (h : hub.Mirrored) : hub'.Mirrored := by
  cases ht with
  | unmoved hu => exact h.unmoved hf hf' hu
  | publish hs group name r =>
    obtain ⟨u, hu⟩ := announced_publish hf hs group name (ResourceRecord.ofReport r)
    exact h.announced hu
  | withdraw hw hrest => exact (hw.mirrored hf h).unmoved (hw.filed hf) hf' hrest

theorem mirrored_apply {hub : Hub} (hf : hub.Filed) (h : hub.Mirrored) (e : Event) :
    (hub.apply e).Mirrored := by
  cases e with
  | exporterOpens => exact h.unmoved hf (hf.apply .exporterOpens) (unmoved_exporterOpens hf)
  | exporterSends id m =>
    exact (treeChange_hearExporter hf id m).mirrored hf (hf.apply (.exporterSends id m)) h
  | exporterTakes id =>
    have hu : Unmoved hub (hub.modifyLink id (fun l => l.deliver.2)) :=
      unmoved_modifyLink_same (fun l => l.deliver_session.1)
    exact h.unmoved hf (hf.apply (.exporterTakes id)) hu
  | exporterEnds id =>
    exact (treeChange_disconnect hf id Link.keepsOrEnds_finish).mirrored hf
      (hf.apply (.exporterEnds id)) h
  | exporterLeaves id =>
    exact (treeChange_disconnect hf id Link.keepsOrEnds_close).mirrored hf
      (hf.apply (.exporterLeaves id)) h
  | clientOpens address =>
    intro id c hc
    rcases SortedMap.get?_insert_eq_some_iff.mp hc with ⟨_, rfl⟩ | ⟨_, hold⟩
    · intro _ start hstart
      cases hstart
    · exact h id c hold
  | clientStarts id name version => exact h.withClient id (fun c hc => hc)
  | clientSyncs id n =>
    apply h.withClient id
    intro c hc
    have hsent : (c.send ⟨some n, []⟩).sent = c.sent ++ [⟨some n, []⟩] := rfl
    exact hc.unaware (fun hc => hc) rfl hsent (fun u hu => by cases hu)
  | clientFollowsResources id enable =>
    exact h.withClient id (fun c hc => hc.subscribeResources enable (foldl_resourceViews hub))
  | clientLeaves id =>
    intro id' c hc
    have hc' : (hub.clients.modify id (fun c => { c with connected := false })).get? id' =
        some c := hc
    rw [SortedMap.get?_modify] at hc'
    split at hc'
    · obtain ⟨c₀, _, rfl⟩ := Option.map_eq_some_iff.mp hc'
      intro hconnected
      cases hconnected
    · exact h id' c hc'

theorem Stir.mirrored {hub hub' : Hub} (hs : Stir hub hub') (hf : hub.Filed) (h : hub.Mirrored) :
    hub'.Mirrored := by
  cases hs with
  | event e => exact mirrored_apply hf h e
  | channel id f =>
    have hu : Unmoved hub (hub.modifyLink id (fun l => { l with channel := f l.channel })) :=
      unmoved_modifyLink_same (fun _ => rfl)
    exact h.unmoved hf ((Stir.channel id f).filed hf) hu
  | work _ => exact h

end Hub

/-! ## Outcomes -/

/-- Whether an outcome leaves the copies right. A confirmed holder has to be the one that the
published resource with this record shows already; what is told after a failed release has to be
what some published resource shows in this slot. -/
def Attempt.isFaithful (tells : Bool) (a : Attempt) : Bool :=
  match a.outcome with
  | .done => a.hub.published.all (fun h =>
      h.serial != a.handle.serial || (a.hub.holder h).getD "" == a.place.getD "")
  | .failed _ => !tells || a.place.isSome || a.hub.published.any (fun h =>
      h.path.slot == a.handle.path.slot && a.hub.viewOf h == a.hub.viewOf a.handle)

namespace Hub

/-- Where every copy has become some table, the copies are right just if that is the table of the
published resources, or nobody has one. -/
theorem mirrored_iff_of_copies {hub hub' : Hub} {table : SortedMap (List String) ResourceView}
    (hcopies : ∀ id c, hub'.clients.get? id = some c → c.Mirrors table)
    (hwatched : hub'.Watched ↔ hub.Watched) :
    hub'.Mirrored ↔ (hub.Watched → hub'.resourceTable = table) := by
  constructor
  · intro hm hw
    obtain ⟨id, c, start, hc, hconnected, hstart⟩ := hwatched.mpr hw
    have hnew := (hm id c hc hconnected start hstart).2
    rw [← hnew]
    exact (hcopies id c hc hconnected start hstart).2
  · intro he id c hc hconnected start hstart
    rw [he (hwatched.mp ⟨id, c, start, hc, hconnected, hstart⟩)]
    exact hcopies id c hc hconnected start hstart

theorem tellResources_fields (c : ClientSession) (u : Update) :
    (c.tellResources u).connected = c.connected ∧ (c.tellResources u).resources = c.resources := by
  unfold ClientSession.tellResources
  split <;> exact ⟨rfl, rfl⟩

theorem watched_tellResources (hub : Hub) (u : Update) :
    (hub.tellResources u).Watched ↔ hub.Watched := by
  have hget : ∀ id, (hub.tellResources u).clients.get? id =
      (hub.clients.get? id).map (fun c => c.tellResources u) :=
    fun id => SortedMap.get?_mapValues hub.clients _ id
  constructor
  · rintro ⟨id, c, start, hc, hconnected, hstart⟩
    rw [hget] at hc
    obtain ⟨c₀, hc₀, rfl⟩ := Option.map_eq_some_iff.mp hc
    obtain ⟨he, he'⟩ := tellResources_fields c₀ u
    exact ⟨id, c₀, start, hc₀, he ▸ hconnected, he' ▸ hstart⟩
  · rintro ⟨id, c, start, hc, hconnected, hstart⟩
    obtain ⟨he, he'⟩ := tellResources_fields c u
    refine ⟨id, c.tellResources u, start, ?_, he ▸ hconnected, he' ▸ hstart⟩
    rw [hget, hc]
    rfl

/-- The silent note of a holder changes the table unless the holder is shown already. -/
theorem resourceTable_confirm_iff {hub : Hub} (hf : hub.Filed) (h : Handle)
    (place : Option String) :
    (hub.modifyRecord h (fun r => { r with acquired := place })).resourceTable =
        hub.resourceTable ↔
      ∀ x ∈ hub.published, x.serial = h.serial → (hub.holder x).getD "" = place.getD "" := by
  have hf' := hf.shrink (shrinks_modifyRecord hub h (fun r => { r with acquired := place }))
  have hview : ∀ x ∈ hub.published, x.serial = h.serial →
      (hub.modifyRecord h (fun r => { r with acquired := place })).viewOf x =
        { hub.viewOf x with acquired := place.getD "" } := by
    intro x hx he
    obtain ⟨r, hr⟩ := Option.isSome_iff_exists.mp ((hf.records x.serial).mpr (hf.serials hx))
    unfold viewOf record modifyRecord
    dsimp only
    rw [SortedMap.get?_modify, if_pos he.symm, hr]
    rfl
  have hholder : ∀ x, (hub.viewOf x).acquired = (hub.holder x).getD "" := fun _ => rfl
  constructor
  · intro htable x hx he
    have hold := (get?_resourceTable hf).mpr ⟨x, hx, rfl, rfl⟩
    rw [← htable] at hold
    obtain ⟨y, hy, hslot, hviews⟩ := (get?_resourceTable hf').mp hold
    rw [hf'.eq_of_slot hy hx hslot, hview x hx he] at hviews
    rw [← hholder, ← hviews]
  · intro hall
    refine resourceTable_congr hf hf' (fun _ => Iff.rfl) ?_
    intro x hx
    by_cases he : x.serial = h.serial
    · rw [hview x hx he, ← hall x hx he]
      rfl
    · exact viewOf_modifyRecord _ he

/-- What is told leaves right copies right just if it is in the table already. -/
theorem insert_eq_self_iff {table : SortedMap (List String) ResourceView} {v : ResourceView} :
    table = table.insert v.slot v ↔ table.get? v.slot = some v := by
  constructor
  · intro he
    rw [he, SortedMap.get?_insert, if_pos rfl]
  · intro hget
    exact (SortedMap.insert_eq_self hget).symm

/-- An outcome leaves right copies right just if it is faithful, or nobody has a copy. -/
theorem mirrored_settled_iff {tells : Bool} {a : Attempt} (hf : a.hub.Filed)
    (h : a.hub.Mirrored) :
    (a.settled tells).Mirrored ↔ (a.hub.Watched → a.isFaithful tells = true) := by
  unfold Attempt.settled Attempt.isFaithful
  cases a.outcome with
  | done =>
    -- nobody is told, so the table has to stay as it is
    dsimp only
    have hwatched : (a.hub.modifyRecord a.handle
        (fun r => { r with acquired := a.place })).Watched ↔ a.hub.Watched := Iff.rfl
    have hcopies : ∀ id c, (a.hub.modifyRecord a.handle
        (fun r => { r with acquired := a.place })).clients.get? id = some c →
          c.Mirrors a.hub.resourceTable := h
    rw [mirrored_iff_of_copies hcopies hwatched, resourceTable_confirm_iff hf]
    simp [or_iff_not_imp_left]
  | failed cause =>
    dsimp only
    split
    · -- the view under the handle is told, so the table has to have it already
      rename_i htells
      have hcopies : ∀ id c, (a.hub.publishResource a.handle).clients.get? id = some c →
          c.Mirrors ((Update.resource (a.hub.viewOf a.handle)).intoResources
            a.hub.resourceTable) := by
        intro id c hc
        obtain ⟨c₀, hc₀, rfl⟩ := SortedMap.get?_mapValues_eq_some_iff.mp hc
        exact (h id c₀ hc₀).tellResources _
      have htable : (a.hub.publishResource a.handle).resourceTable = a.hub.resourceTable :=
        resourceTable_aside rfl rfl
      rw [mirrored_iff_of_copies hcopies (watched_tellResources a.hub _), htable]
      have hin : a.hub.resourceTable = (Update.resource (a.hub.viewOf a.handle)).intoResources
            a.hub.resourceTable ↔
          ∃ x ∈ a.hub.published, x.path.slot = a.handle.path.slot ∧
            a.hub.viewOf x = a.hub.viewOf a.handle :=
        insert_eq_self_iff.trans (get?_resourceTable hf)
      rw [hin]
      simp only [Bool.and_eq_true, Option.isNone_iff_eq_none] at htells
      simp [htells]
    · rename_i hsilent
      refine ⟨fun _ _ => ?_, fun _ => h⟩
      simp only [Bool.and_eq_true, not_and, Bool.not_eq_true] at hsilent
      cases tells with
      | false => simp
      | true =>
        have hsome := hsilent rfl
        simp only [Option.isNone_eq_false_iff] at hsome
        simp [hsome]

/-! ## Passages -/

theorem Exchange.mirrored {tells : Bool} {hub hub' : Hub} {l : List Attempt}
    (hx : Exchange tells hub l hub') (hf : hub.Filed) (h : hub.Mirrored)
    (hall : ∀ a ∈ l, a.hub.Watched → a.isFaithful tells = true) :
    hub'.Mirrored ∧ ∀ a ∈ l, a.hub.Mirrored ∧ (a.settled tells).Mirrored := by
  induction hx with
  | refl => exact ⟨h, fun a ha => by cases ha⟩
  | stir hx hs ih =>
    obtain ⟨hm, hl⟩ := ih hall
    exact ⟨hs.mirrored (hx.filed hf) hm, hl⟩
  | @settle l a hx ih =>
    obtain ⟨hm, hl⟩ := ih (fun a' ha' => hall a' (List.mem_append_left _ ha'))
    have hsettled : (a.settled tells).Mirrored :=
      (mirrored_settled_iff (hx.filed hf) hm).mpr (hall a (by simp))
    refine ⟨hsettled, ?_⟩
    intro a' ha'
    rcases List.mem_append.mp ha' with hold | hlast
    · exact hl a' hold
    · rw [List.mem_singleton.mp hlast]
      exact ⟨hm, hsettled⟩

/-- If the outcomes of its commands are faithful, the copies are right behind a passage, and
before and behind every outcome. -/
theorem Passage.mirrored {o : Occasion} {tells : Bool} {hub hub' : Hub} {l : List Attempt}
    (hp : Passage o tells hub l hub') (hf : hub.Filed) (h : hub.Mirrored)
    (hall : ∀ a ∈ l, a.hub.Watched → a.isFaithful tells = true) :
    hub'.Mirrored ∧ ∀ a ∈ l, a.hub.Mirrored ∧ (a.settled tells).Mirrored := by
  induction hp with
  | refl => exact ⟨h, fun a ha => by cases ha⟩
  | exchange hp hx ih =>
    obtain ⟨hm, hl⟩ := ih (fun a ha => hall a (List.mem_append_left _ ha))
    obtain ⟨hm', hl'⟩ := hx.mirrored (hp.filed hf) hm
      (fun a ha => hall a (List.mem_append_right _ ha))
    refine ⟨hm', ?_⟩
    intro a ha
    rcases List.mem_append.mp ha with hold | hnew
    · exact hl a hold
    · exact hl' a hnew
  | move hp hmove _ ih =>
    obtain ⟨hm, hl⟩ := ih hall
    exact ⟨Writes.mirrored hmove.writes hm, hl⟩

theorem Exchange.filed_attempt {tells : Bool} {hub hub' : Hub} {l : List Attempt}
    (hx : Exchange tells hub l hub') (hf : hub.Filed) : ∀ a ∈ l, a.hub.Filed := by
  induction hx with
  | refl => exact fun a ha => by cases ha
  | stir _ _ ih => exact ih
  | settle hx ih =>
    intro a ha
    rcases List.mem_append.mp ha with hold | hlast
    · exact ih a hold
    · rw [List.mem_singleton.mp hlast]
      exact hx.filed hf

theorem Passage.filed_attempt {o : Occasion} {tells : Bool} {hub hub' : Hub} {l : List Attempt}
    (hp : Passage o tells hub l hub') (hf : hub.Filed) : ∀ a ∈ l, a.hub.Filed := by
  induction hp with
  | refl => exact fun a ha => by cases ha
  | exchange hp hx ih =>
    intro a ha
    rcases List.mem_append.mp ha with hold | hnew
    · exact ih a hold
    · exact hx.filed_attempt (hp.filed hf) a hnew
  | move _ _ _ ih => exact ih

end Hub

/-! ## Courses -/

/-- Whether failed releases of a turn are told to clients. -/
def Turn.tells (turn : Turn) : Bool :=
  match turn.operation with
  | none => false
  | some op => op.tells

namespace Station

/-- What one turn does to the copies. -/
theorem Step.mirrored {s t : Station} {turn : Turn} (hs : Step s turn t) (hn : s.hub.Named)
    (hf : s.hub.Filed) (h : s.hub.Mirrored)
    (hall : ∀ a ∈ turn.attempts, a.hub.Watched → a.isFaithful turn.tells = true) :
    t.hub.Mirrored ∧
      ∀ a ∈ turn.attempts, a.hub.Mirrored ∧ (a.settled turn.tells).Mirrored := by
  rcases hs.passage hn hf with ⟨op, hop, hp⟩ | ⟨_, hnone, dirty, hd⟩
  · have htells : turn.tells = op.tells := by
      unfold Turn.tells
      rw [hop]
    rw [htells] at hall ⊢
    exact hp.mirrored hf h hall
  · rw [hd, hnone]
    exact ⟨h, fun a ha => by cases ha⟩

theorem Step.filed_attempt {s t : Station} {turn : Turn} (hs : Step s turn t) (hn : s.hub.Named)
    (hf : s.hub.Filed) : ∀ a ∈ turn.attempts, a.hub.Filed := by
  rcases hs.passage hn hf with ⟨op, _, hp⟩ | ⟨_, hnone, _⟩
  · exact hp.filed_attempt hf
  · rw [hnone]
    exact fun a ha => by cases ha

variable {settings : HubSettings} {directory : Option StateDirectory} {start s : Station}
  {turns : List Turn}

theorem Course.filed_attempt (h : Station.start settings directory = .ok start)
    (hc : Course start turns s) : ∀ turn ∈ turns, ∀ a ∈ turn.attempts, a.hub.Filed := by
  induction hc with
  | start => exact fun turn ht => by cases ht
  | step hc hs ih =>
    obtain ⟨hn, hf⟩ := hc.filed h
    intro turn ht
    rcases List.mem_append.mp ht with hold | hlast
    · exact ih turn hold
    · rw [List.mem_singleton.mp hlast]
      exact hs.filed_attempt hn hf

theorem Course.mirrored_of_faithful (h : Station.start settings directory = .ok start)
    (hc : Course start turns s)
    (hall : ∀ turn ∈ turns, ∀ a ∈ turn.attempts,
      a.hub.Watched → a.isFaithful turn.tells = true) :
    s.hub.Mirrored ∧ ∀ turn ∈ turns, ∀ a ∈ turn.attempts,
      a.hub.Mirrored ∧ (a.settled turn.tells).Mirrored := by
  induction hc with
  | start =>
    obtain ⟨places, hhub, _⟩ := start_ok h
    refine ⟨?_, fun turn ht => by cases ht⟩
    intro id c hget
    rw [hhub] at hget
    cases hget
  | step hc hs ih =>
    obtain ⟨hm, hturns⟩ := ih (fun turn ht => hall turn (List.mem_append_left _ ht))
    obtain ⟨hn, hf⟩ := hc.filed h
    obtain ⟨hm', hlast⟩ := hs.mirrored hn hf hm (hall _ (by simp))
    refine ⟨hm', ?_⟩
    intro turn ht
    rcases List.mem_append.mp ht with hold | hnew
    · exact hturns turn hold
    · rw [List.mem_singleton.mp hnew]
      exact hlast

/-- The copies of the resources are right behind a course, and before and behind every outcome on
its way, just if every outcome that somebody watches is faithful. -/
theorem Course.mirrored_iff (h : Station.start settings directory = .ok start)
    (hc : Course start turns s) :
    (s.hub.Mirrored ∧ ∀ turn ∈ turns, ∀ a ∈ turn.attempts,
      a.hub.Mirrored ∧ (a.settled turn.tells).Mirrored) ↔
      ∀ turn ∈ turns, ∀ a ∈ turn.attempts, a.hub.Watched → a.isFaithful turn.tells = true := by
  constructor
  · rintro ⟨_, hall⟩ turn ht a ha
    obtain ⟨hm, hsettled⟩ := hall turn ht a ha
    exact (Hub.mirrored_settled_iff (hc.filed_attempt h turn ht a ha) hm).mp hsettled
  · exact hc.mirrored_of_faithful h

/-- In the small laboratory all outcomes are faithful, so the user's copy shows the relay. -/
theorem mirrored_lab : lab.hub.Watched ∧ lab.hub.Mirrored := by
  have hstart : Station.start ⟨1000, 1000⟩ none = .ok empty := rfl
  have hwatched : (lab.hub.clients.get? 0).any
      (fun c => c.connected && c.resources == some 0) = true := by decide +kernel
  have hfaithful : (empty.play labScenes).1.all (fun turn =>
      turn.attempts.all (fun a => a.isFaithful turn.tells)) = true := by decide +kernel
  refine ⟨?_, ?_⟩
  · obtain ⟨c, hc, hcond⟩ := (Option.any_eq_true _ _).mp hwatched
    simp only [Bool.and_eq_true, beq_iff_eq] at hcond
    exact ⟨0, c, 0, hc, hcond.1, hcond.2⟩
  · refine ((Course.mirrored_iff hstart (course_play empty labScenes)).mpr ?_).1
    intro turn ht a ha _
    exact List.all_eq_true.mp (List.all_eq_true.mp hfaithful turn ht) a ha

/-! ## A ghost -/

/-- Whether among some events of exporters every confirmation comes right behind a report of the
commanded holder. -/
def confirmsReported (holder : String) : List Event → Bool
  | .exporterSends id (.resource r) :: .exporterSends id' (.response a) :: rest =>
    (!a.success || id == id' && r.acquired == holder) && confirmsReported holder rest
  | .exporterSends _ (.response a) :: rest => !a.success && confirmsReported holder rest
  | _ :: rest => confirmsReported holder rest
  | [] => true

/-- Behind the scenes of the small laboratory the place is released. The exporter withdraws the
relay and refuses the command. -/
def ghostScenes : List Scene :=
  labScenes ++
    [⟨8, .request (Identifier.ofNat .reservation 5) none (.release "board" none),
      [[.exporterTakes 0,
        .exporterSends 0 (.resource ⟨some ("rack", "relay"), "", SortedMap.empty, "", true⟩),
        .exporterSends 0 (.response (.refused "gone"))]]⟩]

/-- The small laboratory with the ghost. -/
def haunted : Station := (empty.play ghostScenes).2

/-- Nothing is published any more, and every confirmation has come right behind a report of the
commanded holder. Still the user's copy shows the relay. -/
theorem ghost_relay :
    Course empty (empty.play ghostScenes).1 haunted ∧
      ghostScenes.all (fun e => e.waits.all (confirmsReported "board")) = true ∧
        haunted.hub.published = [] ∧
          ∃ c, haunted.hub.clients.get? 0 = some c ∧ c.connected = true ∧ c.resources = some 0 ∧
            c.resourceCopy 0 ≠ haunted.hub.resourceTable := by
  have hcopy : (haunted.hub.clients.get? 0).any (fun c => c.connected &&
      c.resources == some 0 && c.resourceCopy 0 != haunted.hub.resourceTable) = true := by
    decide +kernel
  refine ⟨course_play empty ghostScenes, by decide +kernel, by decide +kernel, ?_⟩
  obtain ⟨c, hc, hcond⟩ := (Option.any_eq_true _ _).mp hcopy
  simp only [Bool.and_eq_true, beq_iff_eq, bne_iff_ne] at hcond
  exact ⟨c, hc, hcond.1.1, hcond.1.2, hcond.2⟩

end Station

end BoardFarm
