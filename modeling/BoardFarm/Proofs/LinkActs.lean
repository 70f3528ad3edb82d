import BoardFarm.Proofs.PublishedResources

/-!
# What happens on a link

Operations queue commands and give them up; exporters take what they are sent, answer, register,
and go. Each of these is one act on a link, and whatever happens on the streams comes to a link
as acts.

* `Channel.Fails`: what callers notice of an exporter that goes.
* `LinkAct`, `Link.act`: the acts.
* `Link.deliver_cases`: what a delivery does.
* `Hub.Conducts`, `Hub.conducts_applyAll`: events come to a link as acts, with the answers that the
  exporter sends.
-/

namespace BoardFarm

/-! ## Channels -/

namespace Channel

variable (ch : Channel)

theorem waits_submit (c : Command) (n : Nat) :
    (ch.submit c).waits n = (n == ch.next || ch.waits n) := List.contains_cons

theorem waits_abandon (n m : Nat) : (ch.abandon n).waits m = (ch.waits m && m != n) := by
  rw [Bool.eq_iff_iff]
  simp [waits, abandon]

@[simp] theorem next_resolve (n : Nat) (o : Outcome) : (ch.resolve n o).next = ch.next := by
  unfold resolve
  split <;> rfl

@[simp] theorem queue_resolve (n : Nat) (o : Outcome) : (ch.resolve n o).queue = ch.queue := by
  unfold resolve
  split <;> rfl

@[simp] theorem pending_resolve (n : Nat) (o : Outcome) :
    (ch.resolve n o).pending = ch.pending := by
  unfold resolve
  split <;> rfl

theorem waits_resolve (n m : Nat) (o : Outcome) :
    (ch.resolve n o).waits m = (ch.waits m && m != n) := by
  unfold resolve
  split
  · exact waits_abandon ch n m
  · rename_i h
    by_cases hm : m = n
    · subst hm
      simpa using h
    · simp [hm]

theorem outcome?_resolve (n m : Nat) (o : Outcome) :
    (ch.resolve n o).outcome? m =
      if m = n ∧ ch.waits n = true then some o else ch.outcome? m := by
  unfold resolve
  by_cases hw : ch.waits n = true
  · by_cases hm : m = n
    · subst hm
      simp [outcome?, hw]
    · have hm' : ¬ n = m := fun he => hm he.symm
      simp [outcome?, hw, hm, hm', abandon]
  · simp [hw]

@[simp] theorem next_disconnect (ids : List Nat) : (ch.disconnect ids).next = ch.next := by
  unfold disconnect
  induction ids generalizing ch with
  | nil => rfl
  | cons n rest ih => rw [List.foldl_cons, ih, next_resolve]

@[simp] theorem queue_disconnect (ids : List Nat) : (ch.disconnect ids).queue = ch.queue := by
  unfold disconnect
  induction ids generalizing ch with
  | nil => rfl
  | cons n rest ih => rw [List.foldl_cons, ih, queue_resolve]

@[simp] theorem pending_disconnect (ids : List Nat) :
    (ch.disconnect ids).pending = ch.pending := by
  unfold disconnect
  induction ids generalizing ch with
  | nil => rfl
  | cons n rest ih => rw [List.foldl_cons, ih, pending_resolve]

/-- Callers may have stopped waiting, and some may have learnt that the exporter is gone. -/
structure Fails (ch ch' : Channel) : Prop where
  waits : ∀ n, ch'.waits n = true → ch.waits n = true ∧ ch'.outcome? n = ch.outcome? n
  outcome : ∀ n, ch'.outcome? n = ch.outcome? n ∨
    ch.waits n = true ∧ ch'.outcome? n = some (.failed .disconnected)

variable {ch} {ch₁ ch₂ : Channel}

theorem Fails.trans (h : ch.Fails ch₁) (h' : ch₁.Fails ch₂) : ch.Fails ch₂ := by
  constructor
  · intro n hn
    obtain ⟨hw₁, ho₁⟩ := h'.waits n hn
    obtain ⟨hw, ho⟩ := h.waits n hw₁
    exact ⟨hw, ho₁.trans ho⟩
  · intro n
    rcases h'.outcome n with he | ⟨hw, hgone⟩
    · rw [he]
      exact h.outcome n
    · exact Or.inr ⟨(h.waits n hw).1, hgone⟩

theorem fails_resolve (ch : Channel) (n : Nat) : ch.Fails (ch.resolve n (.failed .disconnected)) := by
  constructor
  · intro m hm
    rw [waits_resolve, Bool.and_eq_true, bne_iff_ne] at hm
    refine ⟨hm.1, ?_⟩
    rw [outcome?_resolve, if_neg (fun h => hm.2 h.1)]
  · intro m
    rw [outcome?_resolve]
    split
    · rename_i h
      exact Or.inr ⟨h.1 ▸ h.2, rfl⟩
    · exact Or.inl rfl

theorem fails_disconnect (ch : Channel) (ids : List Nat) : ch.Fails (ch.disconnect ids) := by
  refine List.foldlRecOn _ _ (motive := ch.Fails) ⟨fun _ hn => ⟨hn, rfl⟩, fun _ => Or.inl rfl⟩ ?_
  exact fun ch₁ h₁ n _ => h₁.trans (fails_resolve ch₁ n)

theorem fails_endReplies (ch : Channel) : ch.Fails ch.endReplies :=
  let h := fails_disconnect { ch with pending := [] } ch.pending
  ⟨h.waits, h.outcome⟩

theorem fails_discardQueue (ch : Channel) : ch.Fails ch.discardQueue :=
  let h := fails_disconnect { ch with queue := [] } (ch.queue.map Prod.fst)
  ⟨h.waits, h.outcome⟩

theorem waits_of_respond {a : Answer} {n : Nat} (h : (ch.respond a).waits n = true) :
    ch.waits n = true := by
  unfold respond at h
  split at h
  · exact h
  · rw [waits_resolve, Bool.and_eq_true] at h
    exact h.1

end Channel

/-! ## What happens on a link -/

/-- What happens on a link: a command is queued or given up, the exporter takes what it is sent
next, an answer arrives, the session of the exporter changes, its stream ends, perhaps because it
is refused, or it stops receiving. -/
inductive LinkAct where
  | submits (c : Command)
  | abandons (n : Nat)
  | takes
  | hears (a : Answer)
  | registers (s : Option ExporterSession)
  | ends (refusal : Option StartupError)
  | leaves
  deriving DecidableEq, Repr

namespace Link

/-- A link behind something that happens on it. Answers are read, and the stream ends, only as
long as the exporter is connected. -/
def act (l : Link) : LinkAct → Link
  | .submits c => { l with channel := l.channel.submit c }
  | .abandons n => { l with channel := l.channel.abandon n }
  | .takes => l.deliver.2
  | .hears a => if l.phase = .connected then { l with channel := l.channel.respond a } else l
  | .registers s => { l with session := s }
  | .ends refusal =>
    if l.phase = .connected then { l.finish with refusal := refusal.or l.refusal } else l
  | .leaves => l.close

theorem fails_close (l : Link) : l.channel.Fails l.close.channel :=
  l.channel.fails_endReplies.trans (Channel.fails_discardQueue _)

/-- The command that the exporter is sent next, with its number. -/
def taken (l : Link) : List (Nat × Command) :=
  match l.deliver.1, l.channel.queue with
  | some (.command c), (n, _) :: _ => [(n, c)]
  | _, _ => []

/-- What a delivery does: the oldest command is delivered, or it is passed over because its caller
has given up, or the delivery is no command. -/
theorem deliver_cases (l : Link) :
    (∃ n c rest, l.channel.queue = (n, c) :: rest ∧ l.channel.waits n = true ∧
      l.taken = [(n, c)] ∧ l.deliver.2 = { l with
        channel := { l.channel with queue := rest, pending := l.channel.pending ++ [n] } }) ∨
    (∃ n c rest, l.channel.queue = (n, c) :: rest ∧ l.channel.waits n = false ∧
      l.taken = [] ∧ l.deliver.2 = { l with channel := { l.channel with queue := rest } }) ∨
    (l.taken = [] ∧ l.deliver.2.channel = l.channel ∧
      (l.deliver.2.phase = .connected → l.phase = .connected)) := by
  by_cases hclosed : l.phase = .closed
  · simp [taken, deliver, hclosed]
  by_cases hgreeted : l.greeted = true
  · cases hq : l.channel.queue with
    | nil =>
      refine Or.inr (Or.inr ?_)
      cases hr : l.refusal with
      | some cause => simp [taken, deliver, hclosed, hgreeted, hq, hr]
      | none => by_cases hend : l.phase = .ending <;> simp [taken, deliver, hgreeted, hq, hr, hend]
    | cons e rest =>
      obtain ⟨n, c⟩ := e
      cases hw : l.channel.waits n with
      | true =>
        refine Or.inl ⟨n, c, rest, rfl, hw, ?_⟩
        simp [taken, deliver, Channel.deliver, hclosed, hgreeted, hq, hw]
      | false =>
        refine Or.inr (Or.inl ⟨n, c, rest, rfl, hw, ?_⟩)
        simp [taken, deliver, Channel.deliver, hclosed, hgreeted, hq, hw]
  · simp [taken, deliver, hclosed, hgreeted]

/-- A delivery leaves callers as they are, and no stream begins by it. -/
theorem deliver_spares (l : Link) :
    (∀ n, l.deliver.2.channel.waits n = l.channel.waits n) ∧
      (∀ n, l.deliver.2.channel.outcome? n = l.channel.outcome? n) ∧
      (l.deliver.2.phase = .connected → l.phase = .connected) := by
  rcases l.deliver_cases with ⟨_, _, _, _, _, _, he⟩ | ⟨_, _, _, _, _, _, he⟩ |
    ⟨_, hchannel, hback⟩
  · rw [he]
    exact ⟨fun _ => rfl, fun _ => rfl, fun hc => hc⟩
  · rw [he]
    exact ⟨fun _ => rfl, fun _ => rfl, fun hc => hc⟩
  · rw [hchannel]
    exact ⟨fun _ => rfl, fun _ => rfl, hback⟩

/-- A stream that has ended stays so. -/
theorem phase_act {l : Link} (h : l.phase ≠ .connected) (x : LinkAct) :
    (l.act x).phase ≠ .connected := by
  cases x with
  | takes => exact fun hc => h (l.deliver_spares.2.2 hc)
  | leaves => exact fun hc => by cases hc
  | _ => simp [act, h]

/-- Only a command that is queued gets a caller that waits. -/
theorem waits_act {l : Link} {x : LinkAct} {n : Nat} (h : (l.act x).channel.waits n = true) :
    l.channel.waits n = true ∨ n = l.channel.next := by
  cases x with
  | submits c =>
    rw [act, Channel.waits_submit, Bool.or_eq_true, beq_iff_eq] at h
    exact h.symm
  | abandons m =>
    rw [act, Channel.waits_abandon, Bool.and_eq_true] at h
    exact Or.inl h.1
  | takes => exact Or.inl ((l.deliver_spares.1 n).symm.trans h)
  | hears a =>
    by_cases hphase : l.phase = .connected
    · rw [act, if_pos hphase] at h
      exact Or.inl (Channel.waits_of_respond h)
    · rw [act, if_neg hphase] at h
      exact Or.inl h
  | registers s => exact Or.inl h
  | ends refusal =>
    by_cases hphase : l.phase = .connected
    · rw [act, if_pos hphase] at h
      exact Or.inl (l.channel.fails_endReplies.waits n h).1
    · rw [act, if_neg hphase] at h
      exact Or.inl h
  | leaves => exact Or.inl (l.fails_close.waits n h).1

/-- Behind the end of the stream a caller learns at most that the exporter is gone. -/
theorem outcome?_act {l : Link} {x : LinkAct} (h : (l.act x).phase ≠ .connected) (n : Nat) :
    (l.act x).channel.outcome? n = l.channel.outcome? n ∨
      (l.act x).channel.outcome? n = some (.failed .disconnected) := by
  cases x with
  | submits c => exact Or.inl rfl
  | abandons m => exact Or.inl rfl
  | takes => exact Or.inl (l.deliver_spares.2.1 n)
  | hears a =>
    by_cases hphase : l.phase = .connected
    · exact absurd (by simp [act, hphase]) h
    · simp [act, hphase]
  | registers s => exact Or.inl rfl
  | ends refusal =>
    by_cases hphase : l.phase = .connected
    · rw [act, if_pos hphase]
      exact (l.channel.fails_endReplies.outcome n).imp_right And.right
    · rw [act, if_neg hphase]
      exact Or.inl rfl
  | leaves => exact (l.fails_close.outcome n).imp_right And.right

end Link

/-! ## Events on a link -/

namespace LinkAct

/-- The answer that arrives. -/
def heard : LinkAct → Option Answer
  | .hears a => some a
  | _ => none

end LinkAct

/-- A link behind several acts. -/
def Link.acts (l : Link) (xs : List LinkAct) : Link := xs.foldl Link.act l

/-- The answers that an event brings on a link. -/
def Event.answers (id : Nat) : Event → List Answer
  | .exporterSends k (.response a) => if k = id then [a] else []
  | _ => []

namespace Hub

/-- Links keep everything but their sessions. -/
def Refiles (hub hub' : Hub) : Prop :=
  ∀ id l, hub.link id = some l → ∃ s, hub'.link id = some { l with session := s }

theorem Refiles.of_links {hub hub' : Hub} (h : hub'.links = hub.links) : Refiles hub hub' := by
  intro id l hl
  refine ⟨l.session, ?_⟩
  unfold link
  rw [h]
  exact hl

theorem Refiles.trans {hub hub₁ hub₂ : Hub} (h : Refiles hub hub₁) (h' : Refiles hub₁ hub₂) :
    Refiles hub hub₂ := by
  intro id l hl
  obtain ⟨s, hs⟩ := h id l hl
  exact h' id { l with session := s } hs

theorem refiles_modifySession (hub : Hub) (id : Nat) (f : ExporterSession → ExporterSession) :
    Refiles hub (hub.modifySession id f) := by
  intro k l hl
  unfold modifySession
  rw [link_modifyLink, hl]
  split
  · exact ⟨_, rfl⟩
  · exact ⟨l.session, rfl⟩

theorem refiles_publishNew (hub : Hub) (id : Nat) (s : ExporterSession) (group name : String)
    (r : ResourceRecord) : Refiles hub (hub.publishNew id s group name r) :=
  refiles_modifySession { hub with records := hub.records.insert hub.records.size r } id _

theorem refiles_withdraw (hub : Hub) (id : Nat) (s : ExporterSession) (group name : String) :
    Refiles hub (hub.withdraw id s group name) := by
  unfold withdraw
  split
  · exact .of_links rfl
  · exact refiles_modifySession (hub.orphanIfHeld _) id _

theorem refiles_withdrawAll (hub : Hub) (id : Nat) : Refiles hub (hub.withdrawAll id) := by
  unfold withdrawAll
  split
  · exact .of_links rfl
  · refine List.foldlRecOn _ _ (motive := Refiles hub) (.of_links rfl) ?_
    exact fun hub₁ h₁ h _ => h₁.trans (refiles_withdraw hub₁ id _ _ _)

theorem refiles_report (hub : Hub) (id : Nat) (s : ExporterSession) (r : ResourceReport) :
    Refiles hub (hub.report id s r) := by
  unfold report
  split
  · exact .of_links rfl
  · split
    · exact refiles_withdraw hub id s _ _
    · unfold publish
      split
      · exact refiles_publishNew hub id s _ _ _
      · split
        · exact .of_links rfl
        · exact refiles_publishNew (hub.orphanIfHeld _) id s _ _ _

/-- Something that happens to the hub comes to a link as acts, which bring some answers. -/
def Conducts (id : Nat) (answers : List Answer) (hub hub' : Hub) : Prop :=
  ∀ l, hub.link id = some l →
    ∃ xs, hub'.link id = some (l.acts xs) ∧ xs.filterMap LinkAct.heard = answers

variable {id : Nat} {hub hub' : Hub}

theorem Conducts.of_link (h : hub'.link id = hub.link id) : Conducts id [] hub hub' := by
  intro l hl
  exact ⟨[], h.trans hl, rfl⟩

theorem Conducts.trans {hub₁ : Hub} {answers answers' : List Answer}
    (h : Conducts id answers hub hub₁) (h' : Conducts id answers' hub₁ hub') :
    Conducts id (answers ++ answers') hub hub' := by
  intro l hl
  obtain ⟨xs, hxs, hheard⟩ := h l hl
  obtain ⟨ys, hys, hheard'⟩ := h' _ hxs
  refine ⟨xs ++ ys, ?_, ?_⟩
  · rw [hys]
    exact congrArg some List.foldl_append.symm
  · rw [List.filterMap_append, hheard, hheard']

theorem Refiles.conducts (h : Refiles hub hub') : Conducts id [] hub hub' := by
  intro l hl
  obtain ⟨s, hs⟩ := h id l hl
  exact ⟨[.registers s], hs, rfl⟩

/-- A change of one link by an act that brings no answer. -/
theorem conducts_modifyLink (id : Nat) (hub : Hub) (k : Nat) {f : Link → Link} {x : LinkAct}
    (hx : x.heard = none) (hf : ∀ l, hub.link k = some l → f l = l.act x) :
    Conducts id [] hub (hub.modifyLink k f) := by
  intro l hl
  by_cases hk : k = id
  · subst hk
    refine ⟨[x], ?_, by simp [hx]⟩
    rw [link_modifyLink, if_pos rfl, hl]
    exact congrArg some (hf l hl)
  · refine ⟨[], ?_, rfl⟩
    rw [link_modifyLink, if_neg hk]
    exact hl

/-- The end of a stream, behind the withdrawal of what was published on it. -/
theorem conducts_disconnect (hub : Hub) (k : Nat) {finish : Link → Link} {x : LinkAct}
    (hx : x.heard = none) (hf : ∀ (l : Link) (s : Option ExporterSession), l.phase = .connected →
      finish { l with session := s } = l.act x)
    (hrest : ∀ l : Link, l.phase ≠ .connected → finish l = l.act x) :
    Conducts id [] hub (hub.disconnect k finish) := by
  unfold disconnect
  split
  · exact .of_link rfl
  · rename_i lk hlk
    split
    · rename_i hphase
      intro l hl
      by_cases hk : k = id
      · subst hk
        rw [hl] at hlk
        cases hlk
        obtain ⟨s, hs⟩ := refiles_withdrawAll hub k _ _ hl
        refine ⟨[x], ?_, by simp [hx]⟩
        rw [link_modifyLink, if_pos rfl, hs]
        exact congrArg some (hf _ s hphase)
      · obtain ⟨s, hs⟩ := refiles_withdrawAll hub k _ _ hl
        refine ⟨[.registers s], ?_, rfl⟩
        rw [link_modifyLink, if_neg hk, hs]
        rfl
    · rename_i hphase
      refine conducts_modifyLink id hub k hx ?_
      intro l hl
      rw [hl] at hlk
      cases hlk
      exact hrest _ hphase

theorem conducts_register (hub : Hub) (k : Nat) (name version : String)
    (hphase : ∀ l, hub.link k = some l → l.phase = .connected) :
    Conducts id [] hub (hub.register k name version) := by
  have hrefuse : ∀ cause : StartupError, Conducts id [] hub
      (hub.modifyLink k (fun l => { l.finish with refusal := some cause })) := by
    intro cause
    refine conducts_modifyLink id hub k (x := .ends (some cause)) rfl ?_
    intro l hl
    simp [Link.act, hphase l hl]
  unfold register
  dsimp only
  split
  · exact hrefuse _
  · split
    · exact hrefuse _
    · exact conducts_modifyLink id hub k (x := .registers _) rfl (fun _ _ => rfl)

theorem conducts_hearExporter (hub : Hub) (k : Nat) (m : ExporterMessage) :
    Conducts id (Event.answers id (.exporterSends k m)) hub (hub.hearExporter k m) := by
  by_cases hanswer : ∃ a, m = .response a
  · obtain ⟨a, rfl⟩ := hanswer
    intro l hl
    by_cases hk : k = id
    · subst hk
      refine ⟨[.hears a], ?_, by simp [Event.answers, LinkAct.heard]⟩
      unfold hearExporter
      simp only [hl]
      by_cases hphase : l.phase = .connected
      · simp [hphase, link_modifyLink, hl, Link.acts, Link.act]
      · simp [hphase, hl, Link.acts, Link.act]
    · refine ⟨[], ?_, by simp [Event.answers, hk]⟩
      unfold hearExporter
      split
      · exact hl
      · split
        · exact hl
        · simp [link_modifyLink, hk, hl, Link.acts]
  · have hnone : Event.answers id (.exporterSends k m) = [] := by
      cases m with
      | response a => exact absurd ⟨a, rfl⟩ hanswer
      | _ => rfl
    rw [hnone]
    unfold hearExporter
    split
    · exact .of_link rfl
    · rename_i l hl
      split
      · exact .of_link rfl
      · rename_i hphase
        split
        · exact .of_link rfl
        · refine conducts_register hub k _ _ ?_
          intro l' hl'
          rw [hl] at hl'
          cases hl'
          exact not_not.mp hphase
        · exact Refiles.conducts (refiles_report hub k _ _)
        · exact .of_link rfl
        · exact absurd ⟨_, rfl⟩ hanswer
        · exact .of_link rfl

/-- An event comes to a link as acts, with the answers that the exporter sends. -/
theorem conducts_apply (hf : hub.Filed) (e : Event) :
    Conducts id (e.answers id) hub (hub.apply e) := by
  cases e with
  | exporterOpens =>
    intro l hl
    refine ⟨[], ?_, rfl⟩
    refine SortedMap.get?_insert_eq_some_iff.mpr (Or.inr ⟨?_, hl⟩)
    rintro rfl
    rw [link, hf.links.get?_size] at hl
    cases hl
  | exporterSends k m => exact conducts_hearExporter hub k m
  | exporterTakes k => exact conducts_modifyLink id hub k (x := .takes) rfl (fun _ _ => rfl)
  | exporterEnds k =>
    refine conducts_disconnect hub k (x := .ends none) rfl ?_ ?_
    · intro l s hphase
      simp [hphase, Link.act, Link.finish]
    · intro l hphase
      simp [hphase, Link.act]
  | exporterLeaves k =>
    exact conducts_disconnect hub k (x := .leaves) rfl (fun _ _ _ => rfl) (fun _ _ => rfl)
  | _ => exact .of_link rfl

theorem conducts_applyAll (hf : hub.Filed) (events : List Event) :
    Conducts id (events.flatMap (Event.answers id)) hub (hub.applyAll events) := by
  induction events generalizing hub with
  | nil => exact .of_link rfl
  | cons e rest ih => exact (conducts_apply hf e).trans (ih (hf.apply e))

end Hub

end BoardFarm
