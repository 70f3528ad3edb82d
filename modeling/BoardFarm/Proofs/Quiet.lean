import BoardFarm.Proofs.Passage

/-!
# Exchanges leave places alone

Whatever exporters and clients do while an operation waits, places and reservations stay as they
are, and what a client is sent is not about places.

* `ClientSession.Spared`: a client that is told nothing about places.
* `Hub.Quiet`: a change of the hub that nobody who follows places can notice.
* `Hub.Exchange.quiet`: exchanges are such changes.
-/

namespace BoardFarm

/-- Whether an update is about a place. -/
def Update.concernsPlaces : Update → Bool
  | .place _ => true
  | .deletedPlace _ => true
  | .resource _ => false
  | .deletedResource _ => false

namespace ClientSession

/-- The client has been sent nothing about places; it has not come back, and its subscription to
places has not been switched. -/
structure Spared (c c' : ClientSession) : Prop where
  connected : c'.connected = true → c.connected = true
  places : c'.places = c.places
  sent : ∃ l : List ClientMessage, c'.sent = c.sent ++ l ∧
    ∀ m ∈ l, ∀ u ∈ m.updates, u.concernsPlaces = false

theorem Spared.refl (c : ClientSession) : c.Spared c :=
  ⟨fun h => h, rfl, [], by simp, fun m hm => by cases hm⟩

theorem Spared.trans {c c₁ c₂ : ClientSession} (h : c.Spared c₁) (h' : c₁.Spared c₂) :
    c.Spared c₂ := by
  obtain ⟨l, hl, hnews⟩ := h.sent
  obtain ⟨l', hl', hnews'⟩ := h'.sent
  refine ⟨fun hc => h.connected (h'.connected hc), h'.places.trans h.places, l ++ l', ?_, ?_⟩
  · rw [hl', hl, List.append_assoc]
  · intro m hm
    rcases List.mem_append.mp hm with hm | hm
    · exact hnews m hm
    · exact hnews' m hm

theorem spared_send (c : ClientSession) {m : ClientMessage}
    (hm : ∀ u ∈ m.updates, u.concernsPlaces = false) : c.Spared (c.send m) := by
  refine ⟨fun h => h, rfl, [m], rfl, ?_⟩
  intro m' hm'
  rw [List.mem_singleton.mp hm']
  exact hm

theorem spared_sendUpdates (c : ClientSession) {updates : List Update}
    (h : ∀ u ∈ updates, u.concernsPlaces = false) : c.Spared (c.sendUpdates updates) := by
  unfold sendUpdates
  split
  · exact .refl c
  · exact spared_send c h

theorem spared_tellResources (c : ClientSession) {u : Update} (h : u.concernsPlaces = false) :
    c.Spared (c.tellResources u) := by
  unfold tellResources
  split
  · apply spared_sendUpdates
    intro u' hu'
    rw [List.mem_singleton.mp hu']
    exact h
  · exact .refl c

theorem spared_subscribeResources (c : ClientSession) (enable : Bool)
    (resources : List ResourceView) : c.Spared (c.subscribeResources enable resources) := by
  unfold subscribeResources
  split
  · exact .refl c
  · have hbatches : c.Spared ((parts batchSize resources.length resources).foldl
        (fun c l => c.sendUpdates (l.map .resource)) c) := by
      refine List.foldlRecOn _ _ (motive := c.Spared) (.refl c) ?_
      intro c₁ h₁ l _
      refine h₁.trans (spared_sendUpdates c₁ ?_)
      intro u hu
      obtain ⟨v, _, rfl⟩ := List.mem_map.mp hu
      rfl
    exact ⟨hbatches.connected, hbatches.places, hbatches.sent⟩
  · exact ⟨fun h => h, rfl, [], by simp, fun m hm => by cases hm⟩

end ClientSession

namespace Hub

/-- The places, the reservations, the settings and the retries are the same, and no client is
told anything about places, nor is a client that is new. -/
structure Quiet (hub hub' : Hub) : Prop where
  settings : hub'.settings = hub.settings
  places : hub'.places = hub.places
  reservations : hub'.reservations = hub.reservations
  retries : hub'.retries = hub.retries
  clients : ∀ {id : Nat} {c' : ClientSession}, hub'.clients.get? id = some c' →
    ∃ c, (hub.clients.get? id = some c ∨ ∃ address, c = ClientSession.new address) ∧ c.Spared c'

theorem Quiet.refl (hub : Hub) : Quiet hub hub :=
  ⟨rfl, rfl, rfl, rfl, fun hc => ⟨_, Or.inl hc, .refl _⟩⟩

theorem Quiet.trans {hub hub₁ hub₂ : Hub} (h : Quiet hub hub₁) (h' : Quiet hub₁ hub₂) :
    Quiet hub hub₂ := by
  refine ⟨h'.settings.trans h.settings, h'.places.trans h.places,
    h'.reservations.trans h.reservations, h'.retries.trans h.retries, ?_⟩
  intro id c₂ hc₂
  obtain ⟨c₁, hc₁ | hnew, hs₁⟩ := h'.clients hc₂
  · obtain ⟨c, hc, hs⟩ := h.clients hc₁
    exact ⟨c, hc, hs.trans hs₁⟩
  · exact ⟨c₁, Or.inr hnew, hs₁⟩

/-- A change of links, records, waiting work and the mark of a change. -/
theorem Quiet.of_eq {hub hub' : Hub} (hsettings : hub'.settings = hub.settings)
    (hplaces : hub'.places = hub.places) (hreservations : hub'.reservations = hub.reservations)
    (hretries : hub'.retries = hub.retries) (hclients : hub'.clients = hub.clients) :
    Quiet hub hub' :=
  ⟨hsettings, hplaces, hreservations, hretries,
    fun hc => ⟨_, Or.inl (hclients ▸ hc), .refl _⟩⟩

theorem quiet_dirty (hub : Hub) (dirty : Bool) : Quiet hub { hub with dirty := dirty } :=
  .of_eq rfl rfl rfl rfl rfl

theorem quiet_modifyLink (hub : Hub) (id : Nat) (f : Link → Link) :
    Quiet hub (hub.modifyLink id f) :=
  .of_eq rfl rfl rfl rfl rfl

/-- A change of every client by which none is told anything about places. -/
theorem quiet_mapClients (hub : Hub) {f : Nat → ClientSession → ClientSession}
    (hf : ∀ id c, ClientSession.Spared c (f id c)) :
    Quiet hub { hub with clients := hub.clients.mapValues f } := by
  refine ⟨rfl, rfl, rfl, rfl, ?_⟩
  intro id c' hc'
  obtain ⟨c, hc, rfl⟩ := SortedMap.get?_mapValues_eq_some_iff.mp hc'
  exact ⟨c, Or.inl hc, hf id c⟩

theorem quiet_tellResources (hub : Hub) {u : Update} (h : u.concernsPlaces = false) :
    Quiet hub (hub.tellResources u) :=
  quiet_mapClients hub (fun _ c => c.spared_tellResources h)

/-- Each client behind a change of one client was there before. -/
theorem client_of_withClient {hub : Hub} {id id' : Nat} {f : ClientSession → ClientSession}
    {c' : ClientSession} (hc' : (hub.withClient id f).clients.get? id' = some c') :
    ∃ c, hub.clients.get? id' = some c ∧ (c' = c ∨ c' = f c) := by
  obtain ⟨c, hc, rfl⟩ := SortedMap.get?_mapValues_eq_some_iff.mp hc'
  refine ⟨c, hc, ?_⟩
  dsimp only
  split
  · split
    · exact Or.inr rfl
    · exact Or.inl rfl
  · exact Or.inl rfl

theorem quiet_withClient (hub : Hub) (id : Nat) {f : ClientSession → ClientSession}
    (hf : ∀ c, ClientSession.Spared c (f c)) : Quiet hub (hub.withClient id f) := by
  apply quiet_mapClients
  intro id' c
  dsimp only
  split
  · split
    · exact hf c
    · exact .refl c
  · exact .refl c

/-! ## Publication -/

theorem quiet_withdraw (hub : Hub) (id : Nat) (s : ExporterSession) (group name : String) :
    Quiet hub (hub.withdraw id s group name) := by
  unfold withdraw
  split
  · exact Quiet.refl hub
  · rename_i h _
    have hremove : Quiet hub
        ((hub.orphanIfHeld h).modifySession id (fun s => s.remove group name)) :=
      .of_eq rfl rfl rfl rfl rfl
    have htell := hremove.trans (quiet_tellResources _ (u := .deletedResource h.path) rfl)
    exact htell.trans (.of_eq rfl rfl rfl rfl rfl)

theorem quiet_withdrawAll (hub : Hub) (id : Nat) : Quiet hub (hub.withdrawAll id) := by
  unfold withdrawAll
  split
  · exact Quiet.refl hub
  · rename_i s _
    have hfold : Quiet hub (s.handles.foldl
        (fun hub h => hub.withdraw id s h.path.group h.path.name) hub) := by
      refine List.foldlRecOn _ _ (motive := Quiet hub) (.refl hub) ?_
      exact fun hub₁ h₁ h _ => h₁.trans (quiet_withdraw hub₁ id s _ _)
    exact hfold.trans (quiet_dirty _ true)

theorem quiet_disconnect (hub : Hub) (id : Nat) (finish : Link → Link) :
    Quiet hub (hub.disconnect id finish) := by
  unfold disconnect
  split
  · exact Quiet.refl hub
  · split
    · exact (quiet_withdrawAll hub id).trans (quiet_modifyLink _ id finish)
    · exact quiet_modifyLink hub id finish

theorem quiet_publishNew (hub : Hub) (id : Nat) (s : ExporterSession) (group name : String)
    (r : ResourceRecord) : Quiet hub (hub.publishNew id s group name r) := by
  unfold publishNew
  dsimp only
  refine Quiet.trans (.of_eq rfl rfl rfl rfl rfl) ((quiet_tellResources _ ?_).trans
    (.of_eq rfl rfl rfl rfl rfl))
  rfl

theorem quiet_publish (hub : Hub) (id : Nat) (s : ExporterSession) (group name : String)
    (r : ResourceRecord) : Quiet hub (hub.publish id s group name r) := by
  unfold publish
  split
  · exact quiet_publishNew ..
  · rename_i h _
    split
    · have hmerge : Quiet hub (hub.modifyRecord h (fun old => old.merge r)) :=
        .of_eq rfl rfl rfl rfl rfl
      exact hmerge.trans (quiet_tellResources _ rfl)
    · have horphan : Quiet hub (hub.orphanIfHeld h) := .of_eq rfl rfl rfl rfl rfl
      exact horphan.trans (quiet_publishNew ..)

theorem quiet_register (hub : Hub) (id : Nat) (name version : String) :
    Quiet hub (hub.register id name version) := by
  unfold register
  dsimp only
  split
  · exact quiet_modifyLink ..
  · split <;> exact quiet_modifyLink ..

theorem quiet_hearExporter (hub : Hub) (id : Nat) (m : ExporterMessage) :
    Quiet hub (hub.hearExporter id m) := by
  unfold hearExporter
  split
  · exact Quiet.refl hub
  · split
    · exact Quiet.refl hub
    · split
      · exact Quiet.refl hub
      · exact quiet_register ..
      · unfold report
        split
        · exact Quiet.refl hub
        · split
          · exact quiet_withdraw ..
          · exact quiet_publish ..
      · exact Quiet.refl hub
      · exact quiet_modifyLink ..
      · exact Quiet.refl hub

/-! ## Events and commands -/

theorem quiet_apply (hub : Hub) (e : Event) : Quiet hub (hub.apply e) := by
  cases e with
  | exporterOpens => exact .of_eq rfl rfl rfl rfl rfl
  | exporterSends id m => exact quiet_hearExporter hub id m
  | exporterTakes id => exact quiet_modifyLink ..
  | exporterEnds id => exact quiet_disconnect hub id _
  | exporterLeaves id => exact quiet_disconnect hub id _
  | clientOpens address =>
    refine ⟨rfl, rfl, rfl, rfl, ?_⟩
    intro id c' hc'
    rcases SortedMap.get?_insert_eq_some_iff.mp hc' with ⟨_, rfl⟩ | ⟨_, hc⟩
    · exact ⟨_, Or.inr ⟨address, rfl⟩, .refl _⟩
    · exact ⟨c', Or.inl hc, .refl c'⟩
  | clientStarts id name version =>
    apply quiet_withClient
    exact fun c => ⟨fun h => h, rfl, [], by simp, fun m hm => by cases hm⟩
  | clientSyncs id n =>
    apply quiet_withClient
    exact fun c => c.spared_send (fun u hu => by cases hu)
  | clientFollowsResources id enable =>
    exact quiet_withClient hub id (fun c => c.spared_subscribeResources enable hub.resourceViews)
  | clientLeaves id =>
    apply quiet_mapClients
    intro id' c
    dsimp only
    split
    · exact ⟨fun h => (by cases h), rfl, [], by simp, fun m hm => by cases hm⟩
    · exact .refl c

theorem Stir.quiet {hub hub' : Hub} (h : Stir hub hub') : Quiet hub hub' := by
  cases h with
  | event e => exact quiet_apply hub e
  | channel id f => exact quiet_modifyLink ..
  | work _ => exact .of_eq rfl rfl rfl rfl rfl

theorem quiet_settled (tells : Bool) (a : Attempt) : Quiet a.hub (a.settled tells) := by
  unfold Attempt.settled
  split
  · exact .of_eq rfl rfl rfl rfl rfl
  · split
    · exact quiet_tellResources _ rfl
    · exact Quiet.refl _

theorem Exchange.quiet {tells : Bool} {hub hub' : Hub} {l : List Attempt}
    (h : Exchange tells hub l hub') : Quiet hub hub' := by
  induction h with
  | refl => exact Quiet.refl hub
  | stir _ hs ih => exact ih.trans hs.quiet
  | settle _ ih => exact ih.trans (quiet_settled tells _)

theorem Exchange.quiet_attempt {tells : Bool} {hub hub' : Hub} {l : List Attempt}
    (h : Exchange tells hub l hub') {a : Attempt} (ha : a ∈ l) : Quiet hub a.hub := by
  induction h with
  | refl => cases ha
  | stir _ _ ih => exact ih ha
  | settle hx ih =>
    rcases List.mem_append.mp ha with hold | hnew
    · exact ih hold
    · rw [List.mem_singleton.mp hnew]
      exact hx.quiet

end Hub

end BoardFarm
