import BoardFarm.Proofs.ResourceReplica

/-!
# What clients have been told

A message to a client is sent behind all that it has been sent before, nothing is taken back, and
a new client never takes the number of another one. So what has been told once is told for good.

* `Hub.Remembers`: no client loses what it has been sent.
* `Hub.remembers_apply`, `Hub.Exchange.remembers`, `Hub.Writes.remembers`: nothing that happens to
  a hub takes a message back.
* `Hub.Announces`, `Hub.announces_failure`: a failed release is told to the subscribers.
-/

namespace BoardFarm

namespace ClientSession

theorem Spared.prefix_sent {c c' : ClientSession} (h : c.Spared c') : c.sent <+: c'.sent := by
  obtain ⟨l, hl, _⟩ := h.sent
  exact ⟨l, hl.symm⟩

theorem prefix_sendUpdates (c : ClientSession) (updates : List Update) :
    c.sent <+: (c.sendUpdates updates).sent := by
  obtain ⟨l, hl, _⟩ := c.sent_sendUpdates updates
  exact ⟨l, hl.symm⟩

theorem prefix_tellPlaces (c : ClientSession) (u : Update) :
    c.sent <+: (c.tellPlaces u).sent := by
  unfold tellPlaces
  split
  · exact c.prefix_sendUpdates [u]
  · exact List.prefix_refl _

theorem prefix_tellResources (c : ClientSession) (u : Update) :
    c.sent <+: (c.tellResources u).sent := by
  unfold tellResources
  split
  · exact c.prefix_sendUpdates [u]
  · exact List.prefix_refl _

theorem prefix_subscribePlaces (c : ClientSession) (enable : Bool) (places : List PlaceView) :
    c.sent <+: (c.subscribePlaces enable places).sent := by
  unfold subscribePlaces
  split
  · exact List.prefix_refl _
  · exact c.prefix_sendUpdates _
  · exact List.prefix_refl _

end ClientSession

namespace Hub

/-- Clients stay numbered, and each has been sent all that it had been sent before. -/
structure Remembers (hub hub' : Hub) : Prop where
  numbered : hub.clients.Numbered → hub'.clients.Numbered
  sent : hub.clients.Numbered → ∀ {id : Nat} {c : ClientSession}, hub.clients.get? id = some c →
    ∃ c', hub'.clients.get? id = some c' ∧ c.sent <+: c'.sent

variable {hub hub₁ hub' : Hub}

theorem Remembers.trans (h : Remembers hub hub₁) (h' : Remembers hub₁ hub') :
    Remembers hub hub' := by
  refine ⟨fun hn => h'.numbered (h.numbered hn), ?_⟩
  intro hn id c hc
  obtain ⟨c₁, hc₁, hfirst⟩ := h.sent hn hc
  obtain ⟨c', hc', hthen⟩ := h'.sent (h.numbered hn) hc₁
  exact ⟨c', hc', hfirst.trans hthen⟩

theorem Remembers.of_clients (h : hub'.clients = hub.clients) : Remembers hub hub' := by
  refine ⟨fun hn => h ▸ hn, ?_⟩
  intro _ id c hc
  exact ⟨c, h ▸ hc, List.prefix_refl _⟩

theorem Remembers.refl (hub : Hub) : Remembers hub hub := .of_clients rfl

/-- Every client is sent something, or nothing. -/
theorem Remembers.of_map {f : Nat → ClientSession → ClientSession}
    (h : hub'.clients = hub.clients.mapValues f) (hf : ∀ id c, c.sent <+: (f id c).sent) :
    Remembers hub hub' := by
  refine ⟨fun hn => ?_, ?_⟩
  · rw [h]
    exact hn.mapValues f
  · intro _ id c hc
    rw [h]
    exact ⟨f id c, SortedMap.get?_mapValues_eq_some_iff.mpr ⟨c, hc, rfl⟩, hf id c⟩

theorem remembers_modifyClient (hub : Hub) (id : Nat) {f : ClientSession → ClientSession}
    (hf : ∀ c, c.sent <+: (f c).sent) : Remembers hub (hub.modifyClient id f) := by
  have hmap : (hub.modifyClient id f).clients =
      hub.clients.mapValues (fun k c => if k = id then f c else c) := rfl
  refine .of_map hmap ?_
  intro k c
  split
  · exact hf c
  · exact List.prefix_refl _

theorem remembers_withClient (hub : Hub) (id : Nat) {f : ClientSession → ClientSession}
    (hf : ∀ c, c.sent <+: (f c).sent) : Remembers hub (hub.withClient id f) := by
  apply remembers_modifyClient
  intro c
  split
  · exact hf c
  · exact List.prefix_refl _

/-- A new client takes a number that no client has. -/
theorem remembers_clientOpens (hub : Hub) (address : Option String) :
    Remembers hub (hub.apply (.clientOpens address)) := by
  refine ⟨fun hn => hn.insert _, ?_⟩
  intro hn id c hc
  have hne : hub.clients.size ≠ id := by
    rintro rfl
    rw [hn.get?_size] at hc
    cases hc
  exact ⟨c, (SortedMap.get?_insert ..).trans ((if_neg hne).trans hc), List.prefix_refl _⟩

/-! ## Events -/

theorem Withdraws.remembers {l : List Handle} (h : Withdraws hub l hub') (hf : hub.Filed) :
    Remembers hub hub' := by
  induction h with
  | nil hub => exact .refl hub
  | cons hs hin hfind _ ih =>
    have htold := (announced_withdraw hf hs hin hfind).clients
    exact (Remembers.of_map htold (fun _ c => c.prefix_tellResources _)).trans
      (ih (hf.shrink (shrinks_withdraw ..)))

theorem TreeChange.remembers (h : TreeChange hub hub') (hf : hub.Filed) : Remembers hub hub' := by
  cases h with
  | unmoved hu => exact .of_clients hu.clients
  | publish hs group name r _ =>
    obtain ⟨u, hu⟩ := announced_publish hf hs group name (ResourceRecord.ofReport r)
    exact .of_map hu.clients (fun _ c => c.prefix_tellResources u)
  | withdraw hw hrest => exact (hw.remembers hf).trans (.of_clients hrest.clients)

theorem remembers_apply (hf : hub.Filed) (e : Event) : Remembers hub (hub.apply e) := by
  cases e with
  | exporterOpens => exact .of_clients rfl
  | exporterSends id m => exact (treeChange_hearExporter hf id m).remembers hf
  | exporterTakes id => exact .of_clients rfl
  | exporterEnds id => exact (treeChange_disconnect hf id Link.keepsOrEnds_finish).remembers hf
  | exporterLeaves id => exact (treeChange_disconnect hf id Link.keepsOrEnds_close).remembers hf
  | clientOpens address => exact remembers_clientOpens hub address
  | clientStarts id name version =>
    exact remembers_withClient hub id (fun c => List.prefix_refl _)
  | clientSyncs id n =>
    exact remembers_withClient hub id (fun c => List.prefix_append _ _)
  | clientFollowsResources id enable =>
    exact remembers_withClient hub id
      (fun c => (c.spared_subscribeResources enable hub.resourceViews).prefix_sent)
  | clientLeaves id => exact remembers_modifyClient hub id (fun _ => List.prefix_refl _)

/-! ## Commands and writes -/

/-- A failed release of a place is told to the subscribers. -/
theorem clients_settled {a : Attempt} (hplace : a.place = none) (hfailed : a.outcome ≠ .done) :
    (a.settled true).clients = a.hub.clients.mapValues (fun _ c =>
      c.tellResources (.resource (a.hub.viewOf a.handle))) := by
  unfold Attempt.settled
  split
  · rename_i hdone
    exact absurd hdone hfailed
  · rw [hplace]
    rfl

theorem remembers_settled (tells : Bool) (a : Attempt) : Remembers a.hub (a.settled tells) := by
  unfold Attempt.settled
  split
  · exact .of_clients rfl
  · split
    · exact .of_map rfl (fun _ c => c.prefix_tellResources _)
    · exact .of_clients rfl

theorem Stir.remembers (h : Stir hub hub') (hf : hub.Filed) : Remembers hub hub' := by
  cases h with
  | event e => exact remembers_apply hf e
  | channel id f => exact .of_clients rfl
  | work _ => exact .of_clients rfl

theorem Exchange.remembers {tells : Bool} {l : List Attempt} (h : Exchange tells hub l hub')
    (hf : hub.Filed) : Remembers hub hub' := by
  induction h with
  | refl => exact .refl hub
  | stir hx hs ih => exact ih.trans (hs.remembers (hx.filed hf))
  | settle _ ih => exact ih.trans (remembers_settled tells _)

theorem Write.remembers (h : Write hub hub') : Remembers hub hub' := by
  cases h with
  | store p => exact .of_map rfl (fun _ c => c.prefix_tellPlaces _)
  | erase name => exact .of_map rfl (fun _ c => c.prefix_tellPlaces _)
  | tell _ => exact .of_map rfl (fun _ c => c.prefix_tellPlaces _)
  | plan rs b dirty => exact .of_clients rfl
  | follow id enable =>
    exact remembers_withClient hub id (fun c => c.prefix_subscribePlaces enable _)

theorem Writes.remembers (h : Writes hub hub') : Remembers hub hub' := by
  induction h with
  | refl => exact .refl hub
  | tail _ hw ih => exact ih.trans hw.remembers

theorem Passage.remembers {o : Occasion} {tells : Bool} {l : List Attempt}
    (hp : Passage o tells hub l hub') (hf : hub.Filed) : Remembers hub hub' := by
  induction hp with
  | refl => exact .refl hub
  | exchange hp hx ih => exact ih.trans (hx.remembers (hp.filed hf))
  | move _ hm _ ih => exact ih.trans (Writes.remembers hm.writes)

/-! ## Announcements -/

/-- All clients that follow resources in a hub have been told of a change, right behind what each
had been sent there. -/
def Announces (u : Update) (hub hub' : Hub) : Prop :=
  ∀ id c, hub.clients.get? id = some c → c.connected = true → c.resources.isSome = true →
    ∃ c', hub'.clients.get? id = some c' ∧ c.sent ++ [⟨none, [u]⟩] <+: c'.sent

/-- When a release has failed, the present state of its resource is told, and stays told. -/
theorem announces_failure {a : Attempt} (hn : a.hub.clients.Numbered) (hplace : a.place = none)
    (hfailed : a.outcome ≠ .done) (hlater : Remembers (a.settled true) hub') :
    Announces (.resource (a.hub.viewOf a.handle)) a.hub hub' := by
  intro id c hc hconnected hfollows
  have htold := clients_settled hplace hfailed
  have hc₁ : (a.settled true).clients.get? id =
      some (c.tellResources (.resource (a.hub.viewOf a.handle))) := by
    rw [htold]
    exact SortedMap.get?_mapValues_eq_some_iff.mpr ⟨c, hc, rfl⟩
  have hsent : (c.tellResources (.resource (a.hub.viewOf a.handle))).sent =
      c.sent ++ [⟨none, [.resource (a.hub.viewOf a.handle)]⟩] := by
    unfold ClientSession.tellResources
    rw [hconnected, hfollows]
    rfl
  obtain ⟨c', hc', hprefix⟩ := hlater.sent ((remembers_settled true a).numbered hn) hc₁
  exact ⟨c', hc', hsent ▸ hprefix⟩

end Hub

/-! ## Courses -/

namespace Station

variable {settings : HubSettings} {directory : Option StateDirectory} {start s : Station}
  {turns : List Turn}

/-- Throughout a course the clients are numbered. -/
theorem Course.clients_numbered (h : Station.start settings directory = .ok start)
    (hc : Course start turns s) : s.hub.clients.Numbered := by
  have hkept := hc.invariant
    (P := fun hub => (hub.Named ∧ hub.Filed) ∧ hub.clients.Numbered) ?_ ?_ ?_
  · exact hkept.2
  · obtain ⟨places, hhub, _⟩ := start_ok h
    refine ⟨⟨named_start h, filed_start h⟩, ?_⟩
    rw [hhub]
    exact SortedMap.numbered_empty
  · rintro hub dirty ⟨⟨hn, hf⟩, hnumbered⟩
    exact ⟨⟨hn, hf.shrink (.of_eq rfl rfl)⟩, hnumbered⟩
  · rintro ω react around now op hub ⟨⟨hn, hf⟩, hnumbered⟩
    have hp := Run.perform_passes react now op around hn hf.nodup_published
    exact ⟨⟨hp.named hn, hp.filed hf⟩, (hp.remembers hf).numbered hnumbered⟩

end Station

end BoardFarm
