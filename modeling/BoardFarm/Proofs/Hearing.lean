import BoardFarm.Proofs.Accord

/-!
# Messages of exporters are read

What the hub reads of an exporter is an announcement, a report of something new, the report of the
new holder behind a command, or the confirmation of the command. Each keeps the accord.

* `Accord.reads`: a message is read.
* `Accord.step`, `Accord.play`: what cues do.
-/

namespace BoardFarm

variable {o : Errand} {stage : Stage} {ledger : Ledger} {records : SortedMap Nat ResourceRecord}
  {s : Site} {id : Nat} {l : Link} {p : Peer}
  {session : ExporterSession} {known : Exporter} {rest : List ResourceReport}

/-! ## What is heard -/

theorem Hub.hearExporter_report {hub : Hub} (hl : hub.link id = some l)
    (hphase : l.phase = .connected) (hs : l.session = some session) (group name : String)
    {x : Exported} (hholder : x.holder ≠ some "") :
    hub.hearExporter id (.resource (Exporter.report group name x)) =
      hub.publish id session group name x.record := by
  have hcls : (Exporter.report group name x).cls.isEmpty = false :=
    x.equipment.cls.name_ne_empty
  have hreport : hub.hearExporter id (.resource (Exporter.report group name x)) =
      hub.report id session (Exporter.report group name x) := by
    unfold Hub.hearExporter
    rw [hl]
    simp only [hphase, ne_eq, not_true_eq_false, if_false, hs]
  rw [hreport]
  unfold Hub.report
  rw [Exporter.ofReport_report group name hholder, hcls]
  rfl

theorem Hub.hearExporter_answer {hub : Hub} (hl : hub.link id = some l)
    (hphase : l.phase = .connected) (a : Answer) :
    hub.hearExporter id (.response a) =
      hub.modifyLink id (fun l => { l with channel := l.channel.respond a }) := by
  unfold Hub.hearExporter
  rw [hl]
  simp only [hphase, ne_eq, not_true_eq_false, if_false]

theorem Hub.hearExporter_startup {hub : Hub} (hl : hub.link id = some l)
    (hphase : l.phase = .connected) (hs : l.session = none) (name version : String) :
    hub.hearExporter id (.startup name version) = hub.register id name version := by
  unfold Hub.hearExporter
  rw [hl]
  simp only [hphase, ne_eq, not_true_eq_false, if_false, hs]

theorem Hub.hearExporter_ended {hub : Hub} (hl : hub.link id = some l)
    (hphase : l.phase ≠ .connected) (m : ExporterMessage) : hub.hearExporter id m = hub := by
  unfold Hub.hearExporter
  rw [hl]
  exact if_pos hphase

theorem Site.step_reads {m : ExporterMessage} {tail : List ExporterMessage}
    (hp : s.fleet.get? id = some p) (ho : p.outbox = m :: tail) :
    s.step (.reads id) = ⟨s.hub.hearExporter id m, s.fleet.modify id Peer.isRead⟩ := by
  have hevent : s.event? (.reads id) = some (.exporterSends id m) := by
    simp only [Site.event?, hp, Option.bind_some, ho, List.head?_cons, Option.map_some]
  exact Site.step_of_some hevent

theorem Site.fleet_reads {m : ExporterMessage} {tail : List ExporterMessage}
    (hp : s.fleet.get? id = some p) (ho : p.outbox = m :: tail) (k : Nat) :
    (s.step (.reads id)).fleet.get? k = if id = k then some p.isRead else s.fleet.get? k := by
  rw [Site.step_reads hp ho]
  exact Site.fleet_relink hp (fun l => l) Peer.isRead k

/-- There is nothing to read. -/
theorem Site.step_reads_nil (h : ∀ p, s.fleet.get? id = some p → p.outbox = []) :
    s.step (.reads id) = s := by
  have hevent : s.event? (.reads id) = none := by
    cases hp : s.fleet.get? id with
    | none => simp only [Site.event?, hp, Option.bind_none, Option.map_none]
    | some p =>
      simp only [Site.event?, hp, Option.bind_some, h p hp, List.head?_nil, Option.map_none]
  have hfleet : s.fleet.modify id Peer.isRead = s.fleet := by
    refine SortedMap.modify_eq_self (fun p hp => ?_)
    unfold Peer.isRead
    rw [h p hp]
    exact congrArg (Peer.mk p.exporter p.inbox) (h p hp).symm
  rw [Site.step_of_none hevent]
  exact congrArg (Site.mk s.hub) hfleet

/-! ## Announcements -/

theorem Accord.booked_ne_empty (h : Accord o stage ledger s) (path : ResourcePath) :
    o.booked ledger stage path ≠ some "" := by
  by_cases hidle : stage = .idle
  · rw [hidle]
    exact h.named path
  · by_cases hpath : path = o.path
    · subst hpath
      unfold Errand.booked
      split
      · rw [Function.update_self]
        exact (h.busy hidle).1
      · rw [Function.update_self]
        exact (h.busy hidle).1
      · exact h.named _
    · rw [o.booked_of_ne ledger stage hpath]
      exact h.named path

/-- Nothing is held of an exporter under whose name none is registered. -/
theorem Accord.follows_free (h : Accord o stage ledger s) {e : Exporter}
    (hnobody : (s.hub.linkOf e.name).isSome = false)
    (hfree : ∀ ⦃group name : String⦄ ⦃x : Exported⦄, e.find? group name = some x →
      x.holder = none) : e.Follows (o.booked ledger stage) := by
  intro group name x hx
  rw [hfree hx]
  cases hbooked : o.booked ledger stage (x.path e.name group name) with
  | none => rfl
  | some place =>
    obtain ⟨y, hy, hpath⟩ := h.backed_booked (by rw [hbooked]; rfl)
    obtain ⟨k, session, g, n, hsession, hfind⟩ := Hub.mem_published_iff.mp hy
    have hname : session.name = e.name := by
      rw [← (h.filed.paths hsession hfind).1, hpath]
      rfl
    exact absurd hname (Hub.linkOf_isNone hnobody hsession)

/-- An exporter is registered that has announced itself. -/
theorem Unregistered.conversing (hu : Unregistered l p) {version : String}
    (ho : p.outbox = p.exporter.announce version) (records : SortedMap Nat ResourceRecord) :
    Conversing o .idle records
      { l with session := some ⟨p.exporter.name, version, SortedMap.empty⟩ }
      ⟨p.exporter.name, version, SortedMap.empty⟩ p.isRead p.exporter p.exporter.reports := by
  refine ⟨acquainted_register _ _ _, hu.queue, hu.pending, hu.inbox, rfl, ?_, ?_,
    fun hne => absurd rfl hne, (fun hopen => by cases hopen), fun hne => absurd rfl hne, ?_,
    fun hne => absurd rfl hne⟩
  · show p.outbox.tail = _
    rw [ho]
    exact (List.append_nil _).symm
  · intro e he
    have houtcomes : e ∈ l.channel.outcomes := he
    rw [hu.outcomes] at houtcomes
    cases houtcomes
  · rintro (hne | hne) <;> cases hne

theorem Unregistered.refused (hu : Unregistered l p) (cause : StartupError) :
    Unregistered { l.finish with refusal := some cause } p.isRead := by
  have hended : Unregistered { l.finish with refusal := some cause } p :=
    hu.ends (Channel.endReplies_of_pending_nil hu.pending) (fun hc => by cases hc)
  exact ⟨hended.free, hended.queue, hended.pending, hended.outcomes, hended.inbox,
    fun hc => by cases hc⟩

/-- An exporter announces itself. -/
theorem Accord.reads_startup (h : Accord o stage ledger s) (hl : s.hub.link id = some l)
    (hp : s.fleet.get? id = some p) (hs : l.session = none) (hidle : o.stageOn stage id = .idle)
    (hu : Unregistered l p) (hphase : l.phase = .connected) :
    Proceeds o stage ledger s (s.step (.reads id)) := by
  obtain ⟨version, ho⟩ := hu.outbox hphase
  have hstep := Site.step_reads hp ho
  rw [Hub.hearExporter_startup hl hphase hs] at hstep
  have hrefused : ∀ cause : StartupError,
      s.step (.reads id) = s.relink id (fun l => { l.finish with refusal := some cause })
        Peer.isRead → Proceeds o stage ledger s (s.step (.reads id)) := by
    intro cause hrelink
    exact h.relink_at hl hp hrelink Iff.rfl (Or.inl rfl) (.of_none hs)
      (.unregistered rfl hidle (hu.refused cause))
  unfold Hub.register at hstep
  dsimp only at hstep
  split at hstep
  · exact hrefused _ hstep
  · split at hstep
    · exact hrefused _ hstep
    · rename_i hfree
      refine h.relink_at hl hp hstep Iff.rfl (Or.inl rfl) (.of_none hs) ?_
      rw [hidle]
      exact .registered rfl (hu.conversing ho s.hub.records)
        (h.follows_free (by simpa using hfree) hu.free)

/-- What an exporter sends is not read any more once its stream has ended. -/
theorem Accord.reads_ended (h : Accord o stage ledger s) (hl : s.hub.link id = some l)
    (hp : s.fleet.get? id = some p) (hs : l.session = none) (hidle : o.stageOn stage id = .idle)
    (hu : Unregistered l p) (hphase : l.phase ≠ .connected) :
    Proceeds o stage ledger s (s.step (.reads id)) := by
  cases ho : p.outbox with
  | nil =>
    refine h.stays (Site.step_reads_nil (fun p' hp' => ?_))
    rw [hp] at hp'
    cases hp'
    exact ho
  | cons m tail =>
    have hstep := Site.step_reads hp ho
    rw [Hub.hearExporter_ended hl hphase] at hstep
    have hlinks : s.hub.links.modify id (fun l => l) = s.hub.links :=
      SortedMap.modify_eq_self (fun _ _ => rfl)
    have hrelink : s.step (.reads id) = s.relink id (fun l => l) Peer.isRead := by
      unfold Site.relink Hub.modifyLink
      rw [hlinks]
      exact hstep
    exact h.relink_at hl hp hrelink Iff.rfl (Or.inl rfl) (.of_none hs)
      (.unregistered hs hidle ⟨hu.free, hu.queue, hu.pending, hu.outcomes, hu.inbox,
        fun hc => absurd hc hphase⟩)

/-! ## Reports -/

/-- Something new is published. -/
theorem Conversing.published {records' : SortedMap Nat ResourceRecord} {session' : ExporterSession}
    {r : ResourceReport} (hc : Conversing o stage records l session p known (r :: rest))
    (ha : Acquainted records' session' known rest)
    (hkeep : ∀ group name x, session.find? group name = some x →
      session'.find? group name = some x) :
    Conversing o stage records' { l with session := some session' } session' p.isRead known
      rest := by
  refine ⟨ha, hc.queue, hc.pending, hc.inbox, hc.exporter, ?_, hc.numbered, hc.sent, hc.waits,
    hc.outcome, ?_, ?_⟩
  · show p.outbox.tail = _
    rw [hc.outbox]
    rfl
  · intro hstage
    cases hc.drained hstage
  · intro hstage
    obtain ⟨x, hx, hlawful⟩ := hc.lawful hstage
    exact ⟨x, hkeep _ _ _ hx, hlawful⟩

theorem Hub.link_publishNew {hub : Hub} (hl : hub.link id = some l) (hs : l.session = some session)
    (group name : String) (r : ResourceRecord) (k : Nat) :
    (hub.publishNew id session group name r).link k = if id = k then
      some { l with session := some (session.file group name
        ⟨hub.records.size, ⟨session.name, group, r.cls, name⟩⟩) } else hub.link k := by
  refine (Hub.link_modifyLink _ id k _).trans ?_
  split
  · rename_i hk
    subst hk
    show (hub.link id).map _ = _
    rw [hl]
    exact congrArg some (congrArg (fun session => { l with session := session })
      (by rw [hs]; rfl))
  · rfl

theorem ExporterSession.find?_file_of_none {group name : String}
    (hnone : session.find? group name = none) (x : Handle) (g n : String) (y : Handle)
    (hy : session.find? g n = some y) : (session.file group name x).find? g n = some y := by
  rw [ExporterSession.find?_file, if_neg]
  · exact hy
  · rintro ⟨rfl, rfl⟩
    rw [hnone] at hy
    cases hy

/-- A handle is published on one link, under one group and name. -/
theorem Hub.Filed.find?_inj {hub : Hub} (h : hub.Filed) {k k' : Nat}
    {session session' : ExporterSession} {g n g' n' : String} {x : Handle}
    (hs : hub.session k = some session) (hx : session.find? g n = some x)
    (hs' : hub.session k' = some session') (hx' : session'.find? g' n' = some x) :
    k = k' ∧ g = g' ∧ n = n' := by
  have hpath := h.paths hs hx
  have hpath' := h.paths hs' hx'
  exact ⟨h.names hs hs' (hpath.1.symm.trans hpath'.1), hpath.2.1.symm.trans hpath'.2.1,
    hpath.2.2.symm.trans hpath'.2.2⟩

/-- A report of something new is read. -/
theorem Accord.reads_new (h : Accord o stage ledger s) (hl : s.hub.link id = some l)
    (hp : s.fleet.get? id = some p) {r : ResourceReport} (hs : l.session = some session)
    (hc : Conversing o (o.stageOn stage id) s.hub.records l session p known (r :: rest))
    (hf : known.Follows (o.booked ledger stage)) :
    Proceeds o stage ledger s (s.step (.reads id)) := by
  have hsession := Hub.session_eq_some_iff.mpr ⟨l, hl, hs⟩
  have hphase : l.phase = .connected := h.filed.connected hl (by rw [hs]; rfl)
  obtain ⟨group, name, x, hx, hnone, rfl⟩ := hc.acquainted.head
  have hholder : x.holder ≠ some "" := by
    rw [hf hx]
    exact h.booked_ne_empty _
  have ho : p.outbox = .resource (Exporter.report group name x) ::
      (rest.map .resource ++ o.replies known (o.stageOn stage id)) := hc.outbox
  have hstep := Site.step_reads hp ho
  rw [Hub.hearExporter_report hl hphase hs group name hholder, Hub.publish_of_none hnone] at hstep
  obtain ⟨handle, hhandle⟩ : ∃ handle : Handle,
      handle = ⟨s.hub.records.size, ⟨session.name, group, x.record.cls, name⟩⟩ := ⟨_, rfl⟩
  have hlink : ∀ k, (s.step (.reads id)).hub.link k = if id = k then
      some { l with session := some (session.file group name handle) } else s.hub.link k := by
    intro k
    rw [hstep, hhandle]
    exact Hub.link_publishNew hl hs group name x.record k
  have hrecords : ∀ n, (s.step (.reads id)).hub.records.get? n =
      if s.hub.records.size = n then some x.record else s.hub.records.get? n := by
    intro n
    rw [hstep]
    exact SortedMap.get?_insert ..
  -- records that are in use are older
  have hothers : ∀ k session', s.hub.session k = some session' → ∀ g n y,
      session'.find? g n = some y →
        (s.step (.reads id)).hub.records.get? y.serial = s.hub.records.get? y.serial := by
    intro k session' hk g n y hy
    have hlt := h.filed.serials (Hub.mem_published_iff.mpr ⟨k, session', g, n, hk, hy⟩)
    rw [hrecords, if_neg (by omega)]
  have hkept := ExporterSession.find?_file_of_none hnone handle
  have hacquainted : Acquainted (s.step (.reads id)).hub.records
      (session.file group name handle) known rest := by
    refine hc.acquainted.publish hx ?_ ?_ (fun g n y => hothers id session hsession g n y)
    · rw [hhandle, hc.acquainted.name]
      rfl
    · rw [hrecords, if_pos]
      rw [hhandle]
  refine h.proceeds Iff.rfl (h.change hl (h.filed_step _) hlink (Site.fleet_reads hp ho)
    (Or.inl rfl) ?_ (fun k session' _ hk => hothers k session' hk) ?_)
  · intro session' hs'
    rw [hs] at hs'
    cases hs'
    exact ⟨_, rfl, hkept⟩
  · exact .registered rfl (hc.published hacquainted hkept) hf

/-- The ledger notes the new holder. -/
theorem Exporter.Follows.withHolder {x : Exported} (hf : known.Follows ledger)
    (hx : known.find? o.path.group o.path.name = some x)
    (hpath : x.path known.name o.path.group o.path.name = o.path) :
    (known.withHolder o.path.group o.path.name o.place).Follows
      (Function.update ledger o.path o.place) := by
  intro g n y hy
  rw [Exporter.find?_withHolder] at hy
  split at hy
  · rename_i he
    obtain ⟨rfl, rfl⟩ := he
    rw [hx] at hy
    cases hy
    show o.place = Function.update ledger o.path o.place (x.path known.name _ _)
    rw [hpath, Function.update_self]
  · rename_i hne
    refine (hf hy).trans (Function.update_of_ne ?_ ..).symm
    intro he
    rw [← he] at hne
    exact hne ⟨rfl, rfl⟩

/-- The hub learns of the new holder. -/
theorem Conversing.reported {records' : SortedMap Nat ResourceRecord} {held : Exported}
    (hc : Conversing o .served records l session p known [])
    (ha : Acquainted records' session (known.withHolder o.path.group o.path.name o.place) [])
    (hserve : known.serve o.command = ([.resource (Exporter.report o.path.group o.path.name held),
      .response .done], known.withHolder o.path.group o.path.name o.place)) :
    Conversing o .reported records' l session p.isRead
      (known.withHolder o.path.group o.path.name o.place) [] := by
  have hexporter : p.exporter = (known.serve o.command).2 := hc.exporter
  have houtbox : p.outbox = [] ++ (known.serve o.command).1 := hc.outbox
  rw [hserve] at hexporter houtbox
  refine ⟨ha, hc.queue, hc.pending, hc.inbox, hexporter, ?_, hc.numbered,
    fun _ => hc.sent (by decide), fun _ => hc.waits rfl, fun _ => hc.outcome (by decide),
    fun _ => rfl, ?_⟩
  · show p.outbox.tail = _
    rw [houtbox]
    rfl
  · intro _
    obtain ⟨handle, hhandle, hpath, _⟩ := hc.lawful (by decide)
    refine ⟨handle, hhandle, hpath, ?_⟩
    rintro (hne | hne | hne) <;> cases hne

/-- What a served command has been about. -/
theorem Conversing.served (hc : Conversing o .served records l session p known [])
    (hplace : o.place ≠ some "") :
    ∃ handle x, session.find? o.path.group o.path.name = some handle ∧ handle.path = o.path ∧
      known.find? o.path.group o.path.name = some x ∧
      handle.path = x.path known.name o.path.group o.path.name ∧
      records.get? handle.serial = some x.record ∧
      known.serve o.command = ([.resource (Exporter.report o.path.group o.path.name
        { x with holder := o.place }), .response .done],
        known.withHolder o.path.group o.path.name o.place) := by
  obtain ⟨handle, hhandle, hpath, hlawful⟩ := hc.lawful (by decide)
  obtain ⟨x, hx, hmay⟩ := hlawful (Or.inr (Or.inr rfl))
  obtain ⟨x', hx', hxpath, hrecord⟩ := hc.acquainted.published hhandle
  rw [hx] at hx'
  cases hx'
  exact ⟨handle, x, hhandle, hpath, hx, hxpath, hrecord,
    Exporter.serve_of_mayChange hx hmay hplace⟩

/-- The report of a new holder is read. -/
theorem Accord.reads_holder (h : Accord o .served ledger s) (hl : s.hub.link o.link = some l)
    (hp : s.fleet.get? o.link = some p) (hs : l.session = some session)
    (hc : Conversing o .served s.hub.records l session p known []) (hf : known.Follows ledger) :
    Proceeds o .served ledger s (s.step (.reads o.link)) := by
  have hsession := Hub.session_eq_some_iff.mpr ⟨l, hl, hs⟩
  have hphase : l.phase = .connected := h.filed.connected hl (by rw [hs]; rfl)
  have hplace : o.place ≠ some "" := (h.busy (by decide)).1
  obtain ⟨handle, x, hhandle, hpath, hx, hxpath, hrecord, hserve⟩ := hc.served hplace
  obtain ⟨held, hheld⟩ : ∃ held : Exported, held = { x with holder := o.place } := ⟨_, rfl⟩
  rw [← hheld] at hserve
  have ho : p.outbox = .resource (Exporter.report o.path.group o.path.name held) ::
      [.response .done] := by
    have houtbox : p.outbox = [] ++ (known.serve o.command).1 := hc.outbox
    rw [houtbox, hserve]
    rfl
  have hcls : handle.path.cls = held.record.cls := by
    rw [hxpath, hheld]
    rfl
  have hstep := Site.step_reads hp ho
  rw [Hub.hearExporter_report hl hphase hs _ _ (by rw [hheld]; exact hplace),
    Hub.publish_of_cls hhandle hcls] at hstep
  have hlink : ∀ k, (s.step (.reads o.link)).hub.link k =
      if o.link = k then some l else s.hub.link k := by
    intro k
    rw [hstep]
    split
    · rename_i hk
      rw [← hk]
      exact hl
    · rfl
  have hrecords : ∀ n, (s.step (.reads o.link)).hub.records.get? n =
      if handle.serial = n then (s.hub.records.get? n).map (fun old => old.merge held.record)
      else s.hub.records.get? n := by
    intro n
    rw [hstep]
    exact SortedMap.get?_modify ..
  -- no other published handle has this record
  have hothers : ∀ k session', s.hub.session k = some session' → ∀ g n y,
      session'.find? g n = some y → y ≠ handle →
        (s.step (.reads o.link)).hub.records.get? y.serial = s.hub.records.get? y.serial := by
    intro k session' hk g n y hy hne
    rw [hrecords, if_neg]
    intro hserial
    exact hne (h.filed.distinct (Hub.mem_published_iff.mpr ⟨k, session', g, n, hk, hy⟩)
      (Hub.mem_published_iff.mpr ⟨_, session, _, _, hsession, hhandle⟩) hserial.symm)
  have hacquainted : Acquainted (s.step (.reads o.link)).hub.records session
      (known.withHolder o.path.group o.path.name o.place) [] := by
    refine hc.acquainted.update hx hhandle o.place ?_ ?_
    · rw [hrecords, if_pos rfl, hrecord, hheld]
      rfl
    · intro g n y hy hne
      refine hothers _ session hsession g n y hy ?_
      rintro rfl
      exact hne (h.filed.find?_inj hsession hhandle hsession hy).2
  have hidle : Stage.reported = .idle ↔ Stage.served = .idle := by decide
  refine h.proceeds hidle (h.change hl (h.filed_step _) hlink (Site.fleet_reads hp ho)
    (Or.inr ⟨rfl, by decide⟩) (.of_session rfl) ?_ ?_)
  · intro k session' hk hsession' g n y hy
    refine hothers k session' hsession' g n y hy ?_
    rintro rfl
    exact hk (h.filed.find?_inj hsession' hy hsession hhandle).1
  · rw [o.stageOn_link]
    have hsame : x.path known.name o.path.group o.path.name = o.path := hxpath.symm.trans hpath
    exact .registered hs (hc.reported hacquainted hserve) (hf.withHolder hx hsame)

/-- The confirmation is read. -/
theorem Accord.reads_answer (h : Accord o .reported ledger s) (hl : s.hub.link o.link = some l)
    (hp : s.fleet.get? o.link = some p) (hs : l.session = some session)
    (hc : Conversing o .reported s.hub.records l session p known [])
    (hf : known.Follows (o.booked ledger .reported)) :
    Proceeds o .reported ledger s (s.step (.reads o.link)) := by
  have hphase : l.phase = .connected := h.filed.connected hl (by rw [hs]; rfl)
  have ho : p.outbox = [.response .done] := hc.outbox
  have hstep := Site.step_reads hp ho
  rw [Hub.hearExporter_answer hl hphase] at hstep
  have hidle : Stage.answered = .idle ↔ Stage.reported = .idle := by decide
  refine h.relink_at hl hp (g := Peer.isRead) hstep hidle (Or.inr ⟨rfl, by decide⟩)
    (.of_session rfl) ?_
  rw [o.stageOn_link]
  exact .registered hs hc.confirmed hf

/-- A message of an exporter is read. -/
theorem Accord.reads (h : Accord o stage ledger s) (id : Nat) :
    Proceeds o stage ledger s (s.step (.reads id)) := by
  cases hp : s.fleet.get? id with
  | none =>
    refine h.stays (Site.step_reads_nil (fun p hp' => ?_))
    rw [hp] at hp'
    cases hp'
  | some p =>
    have hsome : (s.hub.link id).isSome := by rw [← h.manned, hp]; rfl
    obtain ⟨l, hl⟩ := Option.isSome_iff_exists.mp hsome
    cases h.attuned hl hp with
    | unregistered hs hidle hu =>
      by_cases hphase : l.phase = .connected
      · exact h.reads_startup hl hp hs hidle hu hphase
      · exact h.reads_ended hl hp hs hidle hu hphase
    | @registered session known rest hs hc hf =>
      cases rest with
      | cons r rest => exact h.reads_new hl hp hs hc hf
      | nil =>
        cases hstage : o.stageOn stage id with
        | served =>
          obtain ⟨rfl, rfl⟩ := Errand.of_stageOn hstage (by decide)
          rw [hstage] at hc
          exact h.reads_holder hl hp hs hc hf
        | reported =>
          obtain ⟨rfl, rfl⟩ := Errand.of_stageOn hstage (by decide)
          rw [hstage] at hc
          exact h.reads_answer hl hp hs hc hf
        | idle | queued | taken | answered =>
          -- nothing has been sent
          refine h.stays (Site.step_reads_nil (fun p' hp' => ?_))
          rw [hp] at hp'
          cases hp'
          rw [hc.outbox, hstage]
          rfl

/-! ## Runs of cues -/

theorem Accord.step (h : Accord o stage ledger s) (c : Cue) :
    Proceeds o stage ledger s (s.step c) := by
  cases c with
  | opens name version inventory => exact h.opens name version inventory
  | takes id => exact h.takes id
  | serves id => exact h.serves id
  | reads id => exact h.reads id
  | ends id => exact h.ends id
  | leaves id => exact h.leaves id
  | client e => exact h.client e

/-- Whatever happens, the command only gets further. -/
theorem Accord.play (h : Accord o stage ledger s) (cues : List Cue) :
    Proceeds o stage ledger s (s.play cues) := by
  induction cues generalizing stage s with
  | nil => exact ⟨stage, h, Iff.rfl, .refl _⟩
  | cons c rest ih =>
    obtain ⟨stage', h', hidle, hgrows⟩ := h.step c
    obtain ⟨stage'', h'', hidle', hgrows'⟩ := ih h'
    exact ⟨stage'', h'', hidle'.trans hidle, hgrows.trans hgrows'⟩

end BoardFarm
