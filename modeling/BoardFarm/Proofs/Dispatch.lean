import BoardFarm.Proofs.Hearing

/-!
# Commands to a fleet

Between commands nothing is on its way, and the holders of all exporters are those of a ledger. A
command for a published resource either expires or is carried out; then the ledger notes the new
holder, and so does the record of the resource.

* `Settled`: a hub and its fleet between commands.
* `Settled.submit`, `Accord.outcome`, `Accord.abandon`: a command is sent, has an outcome, and is
  done with.
* `Settled.command`: one command.
-/

namespace BoardFarm

/-- Nothing is on its way, and the ledger says who holds the resources. -/
def Settled (ledger : Ledger) (s : Site) : Prop := ∀ o : Errand, Accord o .idle ledger s

variable {o : Errand} {stage stage' : Stage} {ledger ledger' : Ledger} {s : Site} {id : Nat}
  {l : Link} {session : ExporterSession} {x : Handle}

/-! ## Between commands -/

theorem Settled.accord (h : Settled ledger s) : ∃ o, Accord o .idle ledger s :=
  ⟨_, h ⟨0, 0, ⟨"", "", "", ""⟩, none⟩⟩

theorem Errand.stageOn_idle (o : Errand) (id : Nat) : o.stageOn .idle id = .idle := by
  unfold stageOn
  split <;> rfl

/-- Without a command on its way, it does not matter which one is meant. -/
theorem Accord.settled (h : Accord o .idle ledger s) : Settled ledger s := by
  intro o'
  refine ⟨h.filed, h.manned, ?_, h.backed, h.named, fun hne => absurd rfl hne⟩
  intro id l p hl hp
  have hat := h.attuned hl hp
  rw [o.stageOn_idle] at hat
  rw [o'.stageOn_idle]
  cases hat with
  | @registered session known rest hs hc hf =>
    refine .registered hs ⟨hc.acquainted, hc.queue, hc.pending, hc.inbox, hc.exporter, hc.outbox,
      hc.numbered, fun hne => absurd rfl hne, (fun hopen => by cases hopen),
      fun hne => absurd rfl hne, ?_, fun hne => absurd rfl hne⟩ hf
    rintro (hne | hne) <;> cases hne
  | unregistered hs hidle hu => exact .unregistered hs rfl hu

/-- What a hub knows of a published resource. -/
theorem Settled.published (h : Settled ledger s) (hx : x ∈ s.hub.published) :
    ∃ held : Exported, s.hub.records.get? x.serial = some held.record ∧
      held.holder = ledger x.path := by
  obtain ⟨id, session, group, name, hsession, hfind⟩ := Hub.mem_published_iff.mp hx
  obtain ⟨l, hl, hs⟩ := Hub.session_eq_some_iff.mp hsession
  obtain ⟨o, hsettled⟩ := h.accord
  obtain ⟨p, hp⟩ := hsettled.peer hl
  cases hsettled.attuned hl hp with
  | @registered session' known rest hs' hc hf =>
    rw [hs] at hs'
    cases hs'
    obtain ⟨held, hheld, hpath, hrecord⟩ := hc.acquainted.published hfind
    refine ⟨held, hrecord, ?_⟩
    rw [hpath]
    exact hf hheld
  | unregistered hs' _ _ =>
    rw [hs] at hs'
    cases hs'

theorem Settled.holder (h : Settled ledger s) (hx : x ∈ s.hub.published) :
    s.hub.holder x = ledger x.path := by
  obtain ⟨held, hrecord, hholder⟩ := h.published hx
  unfold Hub.holder Hub.record
  rw [hrecord]
  exact hholder

theorem Settled.isOrphaned (h : Settled ledger s) (hx : x ∈ s.hub.published) :
    s.hub.isOrphaned x = false := by
  obtain ⟨held, hrecord, _⟩ := h.published hx
  unfold Hub.isOrphaned Hub.record
  rw [hrecord]
  rfl

/-! ## Channels -/

theorem Hub.published_withChannel (hub : Hub) (id : Nat) (f : Channel → Channel) (x : Handle) :
    x ∈ (Run.withChannel hub id f).published ↔ x ∈ hub.published := by
  have hsame : ∀ l : Link, ({ l with channel := f l.channel } : Link).session = l.session :=
    fun _ => rfl
  exact (Hub.unmoved_modifyLink_same hsame).published x

theorem Hub.Filed.withChannel {hub : Hub} (h : hub.Filed) (id : Nat) (f : Channel → Channel) :
    (Run.withChannel hub id f).Filed :=
  (Hub.Stir.channel id f).filed h

theorem Hub.link_withChannel (hub : Hub) (hl : hub.link id = some l) (f : Channel → Channel)
    (k : Nat) : (Run.withChannel hub id f).link k =
      if id = k then some { l with channel := f l.channel } else hub.link k := by
  refine (Hub.link_modifyLink hub id k _).trans ?_
  split
  · rename_i hk
    rw [← hk, hl]
    rfl
  · rfl

theorem Hub.grows_withChannel (hub : Hub) (id : Nat) (f : Channel → Channel) :
    hub.Grows (Run.withChannel hub id f) :=
  ⟨fun x hx => (hub.published_withChannel id f x).mpr hx, rfl, fun hx => Or.inl hx⟩

theorem Run.nextCommand_of_link {hub : Hub} (hl : hub.link id = some l) :
    nextCommand hub id = l.channel.next := by
  unfold nextCommand
  rw [hl]

/-- A change of the channel on which the command travels. -/
theorem Accord.rechannel (h : Accord o stage ledger s) {f : Channel → Channel}
    (hl : s.hub.link o.link = some l)
    (hbooked : o.booked ledger' stage' = o.booked ledger stage)
    (hbacked : ∀ path, (ledger' path).isSome → (o.booked ledger stage path).isSome)
    (hnamed : ∀ path, ledger' path ≠ some "") (hplace : stage' ≠ .idle → o.place ≠ some "")
    (hat : ∀ p, s.fleet.get? o.link = some p → Attuned o stage' (o.booked ledger' stage')
      s.hub.records { l with channel := f l.channel } p) :
    Accord o stage' ledger' ⟨Run.withChannel s.hub o.link f, s.fleet⟩ := by
  have hlink := s.hub.link_withChannel hl f
  refine ⟨h.filed.withChannel o.link f, ?_, ?_, ?_, hnamed, ?_⟩
  · intro k
    rw [hlink]
    show (s.fleet.get? k).isSome = _
    rw [h.manned]
    split
    · rename_i hk
      rw [← hk, hl]
      rfl
    · rfl
  · intro k lk pk hlk hpk
    rw [hlink] at hlk
    split at hlk
    · rename_i hk
      subst hk
      cases hlk
      rw [o.stageOn_link]
      exact hat pk hpk
    · rename_i hk
      have hold := h.attuned hlk hpk
      rw [o.stageOn_of_ne stage (Ne.symm hk)] at hold
      rw [o.stageOn_of_ne stage' (Ne.symm hk), hbooked]
      exact hold
  · intro path hsome
    obtain ⟨y, hy, hypath⟩ := h.backed_booked (hbacked path hsome)
    exact ⟨y, (s.hub.published_withChannel _ _ y).mpr hy, hypath⟩
  · intro hstage
    refine ⟨hplace hstage, ?_⟩
    rw [hlink, if_pos rfl]
    rfl

/-- A command is sent. -/
theorem Settled.submit (h : Settled ledger s) (hsession : s.hub.session o.link = some session)
    (hx : session.find? o.path.group o.path.name = some x) (hpath : x.path = o.path)
    (hplace : o.place ≠ some "") (hmay : Exporter.mayChange (ledger o.path) o.place = true)
    (hnumber : o.number = Run.nextCommand s.hub o.link) :
    Accord o .queued ledger
      ⟨Run.withChannel s.hub o.link (fun ch => ch.submit o.command), s.fleet⟩ := by
  have hsettled := h o
  obtain ⟨l, hl, hs⟩ := Hub.session_eq_some_iff.mp hsession
  rw [Run.nextCommand_of_link hl] at hnumber
  refine hsettled.rechannel hl rfl (fun _ hsome => hsome) hsettled.named (fun _ => hplace) ?_
  intro p hp
  have hat := hsettled.attuned hl hp
  rw [o.stageOn_link] at hat
  cases hat with
  | unregistered hs' _ _ =>
    rw [hs] at hs'
    cases hs'
  | @registered session' known rest hs' hc hf =>
    rw [hs] at hs'
    cases hs'
    have hqueue : l.channel.queue = [] := hc.queue
    obtain ⟨held, hheld, hxpath, _⟩ := hc.acquainted.published hx
    have hholder : held.holder = ledger o.path := by
      rw [← hpath, hxpath]
      exact hf hheld
    refine .registered hs ⟨hc.acquainted, ?_, hc.pending, hc.inbox, hc.exporter, hc.outbox,
      ?_, ?_, ?_, ?_, ?_, ?_⟩ hf
    · show l.channel.queue ++ [(l.channel.next, o.command)] = [(o.number, o.command)]
      rw [hqueue, hnumber]
      rfl
    · intro e he
      exact Nat.lt_succ_of_lt (hc.numbered e he)
    · intro _
      rw [hnumber]
      exact Nat.lt_succ_self _
    · intro _
      rw [hnumber]
      show (l.channel.next :: l.channel.waiting).contains l.channel.next = true
      simp
    · intro _
      rw [hnumber]
      exact Channel.outcome?_of_numbered hc.numbered
    · rintro (hne | hne) <;> cases hne
    · intro _
      refine ⟨x, hx, hpath, fun _ => ⟨held, hheld, ?_⟩⟩
      rw [hholder]
      exact hmay

/-- The caller learns that the command is done, or nothing. -/
theorem Accord.outcome (h : Accord o stage ledger s) (hstage : stage ≠ .idle) :
    Run.outcomeOf s.hub o.link o.number =
      if stage = .answered then .done else .failed .expired := by
  obtain ⟨l, hl⟩ := Option.isSome_iff_exists.mp (h.busy hstage).2
  obtain ⟨p, hp⟩ := h.peer hl
  have hat := h.attuned hl hp
  rw [o.stageOn_link] at hat
  cases hat with
  | unregistered _ hidle _ => exact absurd hidle hstage
  | @registered session known rest hs hc hf =>
    unfold Run.outcomeOf
    rw [hl, Option.bind_some, hc.outcome hstage]
    by_cases hanswered : stage = .answered
    · rw [if_pos hanswered, if_pos hanswered]
    · rw [if_neg hanswered, if_neg hanswered]

/-- An answered command is done with. -/
theorem Accord.abandon (h : Accord o .answered ledger s) :
    Settled (Function.update ledger o.path o.place)
      ⟨Run.withChannel s.hub o.link (fun ch => ch.abandon o.number), s.fleet⟩ := by
  obtain ⟨l, hl⟩ := Option.isSome_iff_exists.mp (h.busy (by decide)).2
  have haccord : Accord o .idle (Function.update ledger o.path o.place)
      ⟨Run.withChannel s.hub o.link (fun ch => ch.abandon o.number), s.fleet⟩ := by
    refine h.rechannel hl rfl (fun _ hsome => hsome) (fun path => h.booked_ne_empty path)
      (fun hne => absurd rfl hne) ?_
    intro p hp
    have hat := h.attuned hl hp
    rw [o.stageOn_link] at hat
    cases hat with
    | unregistered _ hidle _ => cases hidle
    | @registered session known rest hs hc hf =>
      refine .registered hs ⟨hc.acquainted, hc.queue, hc.pending, hc.inbox, hc.exporter,
        hc.outbox, hc.numbered, fun hne => absurd rfl hne, (fun hopen => by cases hopen),
        fun hne => absurd rfl hne, ?_, fun hne => absurd rfl hne⟩ hf
      rintro (hne | hne) <;> cases hne
  exact haccord.settled

/-! ## Commands -/

theorem linkOf_of_published {hub : Hub} (hf : hub.Filed) (hx : x ∈ hub.published) :
    ∃ id session, hub.linkOf x.path.exporter = some id ∧ hub.session id = some session ∧
      session.find? x.path.group x.path.name = some x := by
  obtain ⟨id, session, group, name, hsession, hfind⟩ := Hub.mem_published_iff.mp hx
  obtain ⟨hexporter, hgroup, hname⟩ := hf.paths hsession hfind
  cases hlink : hub.linkOf x.path.exporter with
  | none =>
    have hnone : (hub.linkOf x.path.exporter).isSome = false := by rw [hlink]; rfl
    exact absurd hexporter.symm (Hub.linkOf_isNone hnone hsession)
  | some id' =>
    obtain ⟨e, he, rfl⟩ := Option.map_eq_some_iff.mp hlink
    have hsession' := Hub.mem_sessions_iff.mp (List.mem_of_find?_eq_some he)
    have hsame : e.2.name = x.path.exporter := by simpa using List.find?_some he
    have hid := hf.names hsession hsession' (hexporter.symm.trans hsame.symm)
    subst hid
    rw [hgroup, hname]
    exact ⟨_, session, rfl, hsession, hfind⟩

variable {σ : Type} {choose : Strategy σ} {r r' : Run (Fleet × σ)}

/-- The hub of a run and the fleet around it. -/
def Run.site (r : Run (Fleet × σ)) : Site := ⟨r.hub, r.around.1⟩

/-- While the answer to a command is awaited, cues are played. -/
theorem Run.exchange_accompany (r : Run (Fleet × σ)) (choose : Strategy σ) (id : Nat) (c : Command)
    {s : Site}
    (hs : s = ⟨Run.withChannel r.hub id (fun ch => ch.submit c), r.around.1⟩) :
    ∃ cues y, r.exchange (Fleet.accompany choose) id c =
      (outcomeOf (s.play cues).hub id (nextCommand r.hub id),
        ⟨withChannel (s.play cues).hub id (fun ch => ch.abandon (nextCommand r.hub id)),
          ((s.play cues).fleet, y), r.attempts⟩) := by
  refine ⟨(choose s.hub s.fleet r.around.2).1, (choose s.hub s.fleet r.around.2).2, ?_⟩
  rw [← Site.applyAll_events, hs]
  rfl

/-- The record of a resource is up to date when its holder is confirmed. -/
theorem Settled.confirmed (h : Settled ledger s) (hx : x ∈ s.hub.published) {place : Option String}
    (hplace : ledger x.path = place) :
    s.hub.modifyRecord x (fun r => { r with acquired := place }) = s.hub := by
  obtain ⟨held, hrecord, hholder⟩ := h.published hx
  have hsame : s.hub.records.modify x.serial (fun r => { r with acquired := place }) =
      s.hub.records := by
    refine SortedMap.modify_eq_self (fun v hv => ?_)
    rw [hrecord] at hv
    cases hv
    rw [← hplace, ← hholder]
    rfl
  unfold Hub.modifyRecord
  rw [hsame]

/-- A command that does not expire is carried out. -/
theorem Settled.command (h : Settled ledger r.site) (hx : x ∈ r.hub.published)
    {place : Option String} (hplace : place ≠ some "")
    (hmay : Exporter.mayChange (ledger x.path) place = true) {outcome : Outcome}
    (hr : r.command (Fleet.accompany choose) x place = (outcome, r'))
    (htimely : ∀ a ∈ r'.attempts, a.outcome ≠ .failed .expired) :
    outcome = .done ∧ Settled (Function.update ledger x.path place) r'.site ∧
      r.hub.Grows r'.hub := by
  obtain ⟨_, hbefore⟩ := h.accord
  have hfiled : r.hub.Filed := hbefore.filed
  obtain ⟨id, session, hlinkOf, hsession, hfind⟩ := linkOf_of_published hfiled hx
  obtain ⟨o, ho⟩ : ∃ o : Errand, o = ⟨id, Run.nextCommand r.hub id, x.path, place⟩ := ⟨_, rfl⟩
  obtain ⟨s, hs⟩ : ∃ s : Site,
      s = ⟨Run.withChannel r.hub id (fun ch => ch.submit o.command), r.around.1⟩ := ⟨_, rfl⟩
  have hsubmitted : Accord o .queued ledger s := by
    subst ho
    rw [hs]
    exact h.submit hsession hfind rfl hplace hmay rfl
  obtain ⟨cues, y, hexchange⟩ := r.exchange_accompany choose id o.command hs
  obtain ⟨stage, hplayed, hidle, hgrows⟩ := hsubmitted.play cues
  have hstage : stage ≠ .idle := fun he => by cases hidle.mp he
  have houtcome : Run.outcomeOf (s.play cues).hub id (Run.nextCommand r.hub id) =
      if stage = .answered then .done else .failed .expired := by
    have hlearnt := hplayed.outcome hstage
    rw [ho] at hlearnt
    exact hlearnt
  have hcommand : r.command (Fleet.accompany choose) x place =
      (if stage = .answered then .done else .failed .expired,
        (Run.confirm x place (if stage = .answered then .done else .failed .expired)
          ⟨Run.withChannel (s.play cues).hub id (fun ch => ch.abandon (Run.nextCommand r.hub id)),
            ((s.play cues).fleet, y), r.attempts⟩).note
          ⟨x, place, true, if stage = .answered then .done else .failed .expired,
            Run.withChannel (s.play cues).hub id
              (fun ch => ch.abandon (Run.nextCommand r.hub id))⟩) := by
    rw [houtcome, ho] at hexchange
    unfold Run.command
    rw [hlinkOf]
    dsimp only
    rw [show (⟨x.path.group, x.path.name, place⟩ : Command) =
      Errand.command ⟨id, Run.nextCommand r.hub id, x.path, place⟩ from rfl, hexchange]
  rw [hcommand] at hr
  obtain ⟨rfl, rfl⟩ := Prod.mk.inj hr
  have hanswered : stage = .answered := by
    by_contra hnot
    refine htimely _ (List.mem_append_right _ (List.mem_singleton_self _)) ?_
    exact if_neg hnot
  subst hanswered
  have hsettled := hplayed.abandon
  rw [ho] at hsettled
  have hsubmit : r.hub.Grows s.hub := by
    rw [hs]
    exact r.hub.grows_withChannel id (fun ch => ch.submit o.command)
  have hgrown := (hsubmit.trans hgrows).trans
    ((s.play cues).hub.grows_withChannel id (fun ch => ch.abandon (Run.nextCommand r.hub id)))
  have hsame := hsettled.confirmed (hgrown.published x hx) (Function.update_self ..)
  refine ⟨rfl, ?_, ?_⟩
  · show Settled _ ⟨Hub.modifyRecord _ x _, _⟩
    rw [hsame]
    exact hsettled
  · show r.hub.Grows (Hub.modifyRecord _ x _)
    rw [hsame]
    exact hgrown

end BoardFarm
