import BoardFarm.Proofs.LinkActs

/-!
# Answers find their commands

Nothing but the order of delivery ties an answer to its command. Commands may be queued, delivered
and given up in any order, and the stream of the exporter may end at any moment: an exporter that
answers what it has been sent, once and in order, is never misunderstood.

* `Line`: a link with the history of its commands and answers.
* `Line.Orderly`: what the history says of the channel, whatever happens.
* `Line.Correlated`, `Line.correlated`: who learns what.
* `Run.exchange_learns`: the same for an operation that exchanges a command.
-/

namespace BoardFarm

/-! ## Links with their history -/

/-- A link with its history. The k-th answer is meant for the k-th delivered command. -/
structure Line where
  link : Link
  /-- The commands that have been queued, in the order of their numbers. -/
  queued : List Command
  /-- The commands that the exporter has been sent, with their numbers, oldest first. -/
  delivered : List (Nat × Command)
  /-- The answers of the exporter, oldest first. -/
  answers : List Answer
  deriving DecidableEq, Repr

namespace Line

/-- A line on which nothing has happened. -/
def opening : Line := ⟨Link.new, [], [], []⟩

/-- A line behind something that happens on its link. -/
def act (l : Line) (x : LinkAct) : Line where
  link := l.link.act x
  queued := match x with
    | .submits c => l.queued ++ [c]
    | _ => l.queued
  delivered := match x with
    | .takes => l.delivered ++ l.link.taken
    | _ => l.delivered
  answers := match x with
    | .hears a => l.answers ++ [a]
    | _ => l.answers

/-- The exporter answers only commands that it has been sent and has not answered. -/
def Due (l : Line) : LinkAct → Prop
  | .hears _ => l.answers.length < l.delivered.length
  | _ => True

/-- One step of a line whose exporter answers what is due. -/
inductive Step (l : Line) : Line → Prop
  | act (x : LinkAct) (hdue : l.Due x) : Step l (l.act x)

/-- The lines to which any course of steps may lead. -/
abbrev Reaches : Line → Line → Prop := Relation.ReflTransGen Step

/-- What the caller of a command learns if it stops waiting now. -/
def learns (l : Line) (n : Nat) : Outcome := (l.link.channel.outcome? n).getD (.failed .expired)

/-- The exporter has answered a command: answers belong to deliveries by their places. -/
def Answered (l : Line) (n : Nat) (c : Command) (a : Answer) : Prop :=
  ∃ k : Nat, l.delivered[k]? = some (n, c) ∧ l.answers[k]? = some a

/-! ## Scripts -/

/-- A line behind several things that happen on its link. -/
def acts (l : Line) (xs : List LinkAct) : Line := xs.foldl act l

/-- The exporter answers what is due, all along. -/
def AllDue : Line → List LinkAct → Prop
  | _, [] => True
  | l, x :: rest => l.Due x ∧ (l.act x).AllDue rest

instance (l : Line) (x : LinkAct) : Decidable (l.Due x) :=
  match x with
  | .hears _ => inferInstanceAs (Decidable (_ < _))
  | .submits _ | .abandons _ | .takes | .registers _ | .ends _ | .leaves => .isTrue trivial

instance decidableAllDue (l : Line) : (xs : List LinkAct) → Decidable (l.AllDue xs)
  | [] => .isTrue trivial
  | x :: rest =>
    have := decidableAllDue (l.act x) rest
    inferInstanceAs (Decidable (_ ∧ _))

theorem reaches_acts {l : Line} {xs : List LinkAct} (h : l.AllDue xs) : l.Reaches (l.acts xs) := by
  induction xs generalizing l with
  | nil => exact .refl
  | cons x rest ih =>
    obtain ⟨hdue, hrest⟩ := h
    exact .head (.act x hdue) (ih hrest)

theorem link_acts (l : Line) (xs : List LinkAct) : (l.acts xs).link = l.link.acts xs := by
  unfold acts Link.acts
  induction xs generalizing l with
  | nil => rfl
  | cons x rest ih => exact ih (l.act x)

theorem queued_acts (l : Line) (xs : List LinkAct) : l.queued <+: (l.acts xs).queued := by
  induction xs generalizing l with
  | nil => exact List.prefix_rfl
  | cons x rest ih =>
    refine List.IsPrefix.trans ?_ (ih (l.act x))
    cases x with
    | submits c => exact List.prefix_append ..
    | _ => exact List.prefix_rfl

/-! ## The channel and its history -/

/-- What the history of a line says of its channel. -/
structure Orderly (l : Line) : Prop where
  next : l.link.channel.next = l.queued.length
  /-- Commands are delivered in the order of their numbers. -/
  ordered : ((l.delivered ++ l.link.channel.queue).map Prod.fst).Pairwise (· < ·)
  known : ∀ e ∈ l.delivered ++ l.link.channel.queue, l.queued[e.1]? = some e.2
  answered : l.answers.length ≤ l.delivered.length
  /-- While the stream goes on, the delivered commands without an answer are pending. -/
  due : l.link.phase = .connected →
    l.link.channel.pending = (l.delivered.drop l.answers.length).map Prod.fst
  sent : ∀ n ∈ l.link.channel.pending, n ∈ l.delivered.map Prod.fst
  waiting : ∀ n, l.link.channel.waits n = true →
    n < l.queued.length ∧ l.link.channel.outcome? n = none
  /-- Callers learn of the answer at the place of their command, or that the exporter is gone. -/
  learnt : ∀ n o, l.link.channel.outcome? n = some o → n < l.queued.length ∧
    (o = .failed .disconnected ∨ ∃ c a, l.Answered n c a ∧ o = .ofAnswer a)

variable {l l' : Line}

theorem Answered.mono {n : Nat} {c : Command} {a : Answer} (h : l.Answered n c a)
    (hdelivered : l.delivered <+: l'.delivered) (hanswers : l.answers <+: l'.answers) :
    l'.Answered n c a := by
  obtain ⟨k, hc, ha⟩ := h
  obtain ⟨later, hlater⟩ := hdelivered
  obtain ⟨later', hlater'⟩ := hanswers
  refine ⟨k, ?_, ?_⟩
  · rw [← hlater, List.getElem?_append_left (List.getElem?_eq_some_iff.mp hc).1]
    exact hc
  · rw [← hlater', List.getElem?_append_left (List.getElem?_eq_some_iff.mp ha).1]
    exact ha

theorem orderly_opening : opening.Orderly where
  next := rfl
  ordered := .nil
  known := fun _ he => by cases he
  answered := Nat.le_refl 0
  due := fun _ => rfl
  sent := fun _ hn => by cases hn
  waiting := fun _ hn => by cases hn
  learnt := fun _ _ ho => by cases ho

/-- Delivered and queued commands have their numbers. -/
theorem Orderly.lt (h : l.Orderly) {e : Nat × Command}
    (he : e ∈ l.delivered ++ l.link.channel.queue) : e.1 < l.queued.length :=
  (List.getElem?_eq_some_iff.mp (h.known e he)).1

/-- Changes of the link that touch neither the channel nor an ended stream. -/
theorem Orderly.of_channel (h : l.Orderly) {link : Link} (hchannel : link.channel = l.link.channel)
    (hphase : link.phase = .connected → l.link.phase = .connected) :
    Orderly { l with link := link } where
  next := by rw [hchannel]; exact h.next
  ordered := by rw [hchannel]; exact h.ordered
  known := by rw [hchannel]; exact h.known
  answered := h.answered
  due := fun hc => by rw [hchannel]; exact h.due (hphase hc)
  sent := by rw [hchannel]; exact h.sent
  waiting := by rw [hchannel]; exact h.waiting
  learnt := by rw [hchannel]; exact h.learnt

/-- The end of the stream. -/
theorem Orderly.cut (h : l.Orderly) {link : Link} (hphase : link.phase ≠ .connected)
    (hnext : link.channel.next = l.link.channel.next)
    (hqueue : link.channel.queue.Sublist l.link.channel.queue)
    (hpending : link.channel.pending = []) (hfails : l.link.channel.Fails link.channel) :
    Orderly { l with link := link } where
  next := hnext.trans h.next
  ordered := h.ordered.sublist ((hqueue.append_left l.delivered).map Prod.fst)
  known := fun e he => h.known e ((hqueue.append_left l.delivered).subset he)
  answered := h.answered
  due := fun hc => absurd hc hphase
  sent := by rw [hpending]; exact fun _ hn => by cases hn
  waiting := by
    intro n hn
    obtain ⟨hw, ho⟩ := hfails.waits n hn
    rw [ho]
    exact h.waiting n hw
  learnt := by
    intro n o ho
    rcases hfails.outcome n with he | ⟨hw, hgone⟩
    · exact h.learnt n o (he.symm.trans ho)
    · exact ⟨(h.waiting n hw).1, Or.inl (Option.some.inj (ho.symm.trans hgone))⟩

theorem Orderly.submits (h : l.Orderly) (c : Command) : (l.act (.submits c)).Orderly where
  next := by
    show l.link.channel.next + 1 = (l.queued ++ [c]).length
    rw [List.length_append, h.next]
    rfl
  ordered := by
    show ((l.delivered ++ (l.link.channel.queue ++ [(l.link.channel.next, c)])).map
      Prod.fst).Pairwise (· < ·)
    rw [← List.append_assoc, List.map_append, List.pairwise_append]
    refine ⟨h.ordered, List.pairwise_singleton .., ?_⟩
    intro n hn m hm
    obtain ⟨e, he, rfl⟩ := List.mem_map.mp hn
    rw [List.map_singleton, List.mem_singleton] at hm
    rw [hm, h.next]
    exact h.lt he
  known := by
    intro e he
    change e ∈ l.delivered ++ (l.link.channel.queue ++ [(l.link.channel.next, c)]) at he
    show (l.queued ++ [c])[e.1]? = some e.2
    rw [← List.append_assoc] at he
    rcases List.mem_append.mp he with hold | hnew
    · rw [List.getElem?_append_left (h.lt hold)]
      exact h.known e hold
    · rw [List.mem_singleton.mp hnew, h.next]
      exact List.getElem?_concat_length
  answered := h.answered
  due := h.due
  sent := h.sent
  waiting := by
    intro n hn
    change (l.link.channel.submit c).waits n = true at hn
    show n < (l.queued ++ [c]).length ∧ l.link.channel.outcome? n = none
    rw [List.length_append, List.length_singleton]
    rw [Channel.waits_submit, Bool.or_eq_true, beq_iff_eq] at hn
    rcases hn with rfl | hold
    · refine ⟨by rw [h.next]; omega, ?_⟩
      rw [Option.eq_none_iff_forall_ne_some]
      intro o ho
      have hlt := (h.learnt _ o ho).1
      rw [h.next] at hlt
      omega
    · obtain ⟨hlt, ho⟩ := h.waiting n hold
      exact ⟨by omega, ho⟩
  learnt := by
    intro n o ho
    show n < (l.queued ++ [c]).length ∧ _
    rw [List.length_append, List.length_singleton]
    obtain ⟨hlt, hwhy⟩ := h.learnt n o ho
    exact ⟨by omega, hwhy⟩

theorem Orderly.abandons (h : l.Orderly) (n : Nat) : (l.act (.abandons n)).Orderly where
  next := h.next
  ordered := h.ordered
  known := h.known
  answered := h.answered
  due := h.due
  sent := h.sent
  waiting := by
    intro m hm
    change (l.link.channel.abandon n).waits m = true at hm
    rw [Channel.waits_abandon, Bool.and_eq_true] at hm
    exact h.waiting m hm.1
  learnt := h.learnt

/-- The exporter is sent the oldest command. -/
theorem Orderly.delivers (h : l.Orderly) {n : Nat} {c : Command} {rest : List (Nat × Command)}
    (hq : l.link.channel.queue = (n, c) :: rest) :
    Orderly { l with
      link := { l.link with channel := { l.link.channel with
        queue := rest, pending := l.link.channel.pending ++ [n] } }
      delivered := l.delivered ++ [(n, c)] } where
  next := h.next
  ordered := by
    have hordered := h.ordered
    rw [hq] at hordered
    simpa using hordered
  known := by
    intro e he
    have hknown := h.known e
    rw [hq] at hknown
    exact hknown (by simpa using he)
  answered := by
    show l.answers.length ≤ (l.delivered ++ [(n, c)]).length
    rw [List.length_append]
    exact Nat.le_add_right_of_le h.answered
  due := by
    intro hc
    show l.link.channel.pending ++ [n] =
      ((l.delivered ++ [(n, c)]).drop l.answers.length).map Prod.fst
    rw [List.drop_append_of_le_length h.answered, List.map_append, h.due hc]
    rfl
  sent := by
    intro m hm
    show m ∈ (l.delivered ++ [(n, c)]).map Prod.fst
    rw [List.map_append]
    rcases List.mem_append.mp hm with hold | hnew
    · exact List.mem_append_left _ (h.sent m hold)
    · exact List.mem_append_right _ hnew
  waiting := h.waiting
  learnt := by
    intro m o ho
    obtain ⟨hlt, hwhy⟩ := h.learnt m o ho
    refine ⟨hlt, hwhy.imp_right ?_⟩
    rintro ⟨c', a, hanswered, ho⟩
    exact ⟨c', a, hanswered.mono (List.prefix_append ..) List.prefix_rfl, ho⟩

/-- The oldest command is passed over. -/
theorem Orderly.skips (h : l.Orderly) {e : Nat × Command} {rest : List (Nat × Command)}
    (hq : l.link.channel.queue = e :: rest) :
    Orderly { l with link := { l.link with channel := { l.link.channel with queue := rest } } } where
  next := h.next
  ordered := by
    have hordered := h.ordered
    rw [hq] at hordered
    exact hordered.sublist (((List.sublist_cons_self e rest).append_left l.delivered).map Prod.fst)
  known := by
    intro e' he
    have hknown := h.known e'
    rw [hq] at hknown
    exact hknown (((List.sublist_cons_self e rest).append_left l.delivered).subset he)
  answered := h.answered
  due := h.due
  sent := h.sent
  waiting := h.waiting
  learnt := h.learnt

theorem Orderly.takes (h : l.Orderly) : (l.act .takes).Orderly := by
  show Orderly ⟨l.link.deliver.2, l.queued, l.delivered ++ l.link.taken, l.answers⟩
  rcases l.link.deliver_cases with ⟨n, c, rest, hq, _, htaken, he⟩ |
    ⟨n, c, rest, hq, _, htaken, he⟩ | ⟨htaken, hchannel, hphase⟩
  · rw [htaken, he]
    exact h.delivers hq
  · rw [htaken, he, List.append_nil]
    exact h.skips hq
  · rw [htaken, List.append_nil]
    exact h.of_channel hchannel hphase

/-- While the stream goes on, a due answer is for the oldest pending command. -/
theorem Orderly.head (h : l.Orderly) (hphase : l.link.phase = .connected)
    (hdue : l.answers.length < l.delivered.length) :
    ∃ n c rest, l.delivered[l.answers.length]? = some (n, c) ∧
      l.link.channel.pending = n :: rest ∧
      rest = (l.delivered.drop (l.answers.length + 1)).map Prod.fst := by
  refine ⟨_, _, _, List.getElem?_eq_getElem hdue, ?_, rfl⟩
  rw [h.due hphase, List.drop_eq_getElem_cons hdue]
  rfl

theorem Orderly.hears (h : l.Orderly) (a : Answer)
    (hdue : l.answers.length < l.delivered.length) : (l.act (.hears a)).Orderly := by
  have hanswered : (l.answers ++ [a]).length ≤ l.delivered.length := by
    rw [List.length_append]
    exact hdue
  have hmono : ∀ {link n c b}, l.Answered n c b →
      Answered ⟨link, l.queued, l.delivered, l.answers ++ [a]⟩ n c b := fun hb =>
    hb.mono List.prefix_rfl (List.prefix_append ..)
  by_cases hphase : l.link.phase = .connected
  · obtain ⟨n, c, rest, hat, hpending, hrest⟩ := h.head hphase hdue
    have hlink : l.link.act (.hears a) = { l.link with
        channel := { l.link.channel with pending := rest }.resolve n (.ofAnswer a) } := by
      simp [Link.act, hphase, Channel.respond, hpending]
    show Orderly ⟨l.link.act (.hears a), l.queued, l.delivered, l.answers ++ [a]⟩
    rw [hlink]
    constructor
    · simpa using h.next
    · simpa using h.ordered
    · simpa using h.known
    · exact hanswered
    · intro _
      simpa using hrest
    · intro m hm
      simp only [Channel.pending_resolve] at hm
      exact h.sent m (hpending ▸ List.mem_cons_of_mem n hm)
    · intro m hm
      simp only [Channel.waits_resolve, Bool.and_eq_true, bne_iff_ne] at hm
      obtain ⟨hlt, ho⟩ := h.waiting m hm.1
      refine ⟨hlt, ?_⟩
      simp only [Channel.outcome?_resolve, hm.2, false_and, if_false]
      exact ho
    · intro m o ho
      simp only [Channel.outcome?_resolve] at ho
      split at ho
      · rename_i hm
        obtain ⟨rfl, hwaits⟩ := hm
        exact ⟨(h.waiting m hwaits).1, Or.inr ⟨c, a, ⟨_, hat, List.getElem?_concat_length⟩,
          (Option.some.inj ho).symm⟩⟩
      · obtain ⟨hlt, hwhy⟩ := h.learnt m o ho
        refine ⟨hlt, hwhy.imp_right ?_⟩
        rintro ⟨c', b, hb, hbo⟩
        exact ⟨c', b, hmono hb, hbo⟩
  · have hlink : l.link.act (.hears a) = l.link := if_neg hphase
    show Orderly ⟨l.link.act (.hears a), l.queued, l.delivered, l.answers ++ [a]⟩
    rw [hlink]
    refine ⟨h.next, h.ordered, h.known, hanswered, fun hc => absurd hc hphase, h.sent, h.waiting,
      ?_⟩
    intro m o ho
    obtain ⟨hlt, hwhy⟩ := h.learnt m o ho
    refine ⟨hlt, hwhy.imp_right ?_⟩
    rintro ⟨c', b, hb, hbo⟩
    exact ⟨c', b, hmono hb, hbo⟩

/-- Whatever happens, the channel keeps to the history. -/
theorem Orderly.act (h : l.Orderly) {x : LinkAct} (hdue : l.Due x) : (l.act x).Orderly := by
  cases x with
  | submits c => exact h.submits c
  | abandons n => exact h.abandons n
  | takes => exact h.takes
  | hears a => exact h.hears a hdue
  | registers s => exact h.of_channel rfl (fun hc => hc)
  | ends refusal =>
    show Orderly { l with link := l.link.act (.ends refusal) }
    by_cases hphase : l.link.phase = .connected
    · rw [Link.act, if_pos hphase]
      exact h.cut (fun hc => by cases hc) (Channel.next_disconnect ..)
        (by simp [Link.finish, Channel.endReplies]) (Channel.pending_disconnect ..)
        l.link.channel.fails_endReplies
    · rw [Link.act, if_neg hphase]
      exact h
  | leaves =>
    refine h.cut (fun hc => by cases hc) ?_ ?_ ?_ l.link.fails_close
    · simp [Link.act, Link.close, Channel.discardQueue, Channel.endReplies]
    · simp [Link.act, Link.close, Channel.discardQueue, Channel.endReplies]
    · simp [Link.act, Link.close, Channel.discardQueue, Channel.endReplies]

theorem Orderly.reaches (h : l.Orderly) (hr : l.Reaches l') : l'.Orderly := by
  induction hr with
  | refl => exact h
  | tail _ hs ih =>
    obtain ⟨x, hdue⟩ := hs
    exact ih.act hdue

/-! ## Who learns what -/

/-- A command that was given up before it was delivered. -/
def Dropped (l : Line) (n : Nat) : Prop :=
  n < l.queued.length ∧ l.link.channel.waits n = false ∧ n ∉ l.delivered.map Prod.fst

theorem Dropped.act {n : Nat} (h : l.Dropped n) (ho : l.Orderly) (x : LinkAct) :
    (l.act x).Dropped n := by
  obtain ⟨hlt, hwaits, hunsent⟩ := h
  refine ⟨?_, ?_, ?_⟩
  · cases x with
    | submits c =>
      show n < (l.queued ++ [c]).length
      rw [List.length_append]
      omega
    | _ => exact hlt
  · rw [Bool.eq_false_iff]
    intro hw
    rcases Link.waits_act hw with hold | hnew
    · rw [hwaits] at hold
      cases hold
    · rw [ho.next] at hnew
      omega
  · cases x with
    | takes =>
      show n ∉ (l.delivered ++ l.link.taken).map Prod.fst
      rcases l.link.deliver_cases with ⟨m, c, rest, _, hm, htaken, _⟩ |
        ⟨_, _, _, _, _, htaken, _⟩ | ⟨htaken, _, _⟩
      · rw [htaken, List.map_append, List.mem_append]
        rintro (hold | hnew)
        · exact hunsent hold
        · -- only a command whose caller waits is delivered
          rw [List.mem_singleton.mp hnew, hm] at hwaits
          cases hwaits
      · rwa [htaken, List.append_nil]
      · rwa [htaken, List.append_nil]
    | _ => exact hunsent

/-- Behind the end of the stream, the caller of a command that was not answered before. -/
def Cut (l : Line) (n : Nat) : Prop :=
  l.link.phase ≠ .connected ∧
    ∀ o, l.link.channel.outcome? n = some o → o = .failed .disconnected

theorem cut_act {n : Nat} {x : LinkAct} (hphase : (l.act x).link.phase ≠ .connected)
    (h : ∀ o, l.link.channel.outcome? n = some o → o = .failed .disconnected) :
    (l.act x).Cut n := by
  refine ⟨hphase, ?_⟩
  intro o ho
  rcases Link.outcome?_act hphase n with he | hgone
  · exact h o (he.symm.trans ho)
  · exact Option.some.inj (ho.symm.trans hgone)

/-- Who learns what on a line, now and later. -/
structure Correlated (l : Line) : Prop where
  /-- No command is delivered twice. -/
  once : (l.delivered.map Prod.fst).Nodup
  /-- A number stands for the command that was queued under it. -/
  delivered : ∀ n c, (n, c) ∈ l.delivered → l.queued[n]? = some c
  /-- Success and rejection are the answer of the exporter to the caller's own command. -/
  own : ∀ n, l.learns n = .failed .expired ∨ l.learns n = .failed .disconnected ∨
    ∃ c a, l.Answered n c a ∧ l.learns n = .ofAnswer a
  /-- A command that was given up before its delivery is never sent, and no answer is passed
  over for it. -/
  unsent : ∀ n, l.Dropped n → ∀ l', l.Reaches l' →
    n ∉ l'.delivered.map Prod.fst ∧ n ∉ l'.link.channel.pending
  /-- An answer settles the command at its place, if the caller waits, and no other. -/
  settled : l.link.phase = .connected → ∀ a, l.Due (.hears a) → ∃ n c,
    l.delivered[l.answers.length]? = some (n, c) ∧
    l.link.channel.pending = n :: (l.act (.hears a)).link.channel.pending ∧
    (l.act (.hears a)).link.channel.outcome? n =
      (if l.link.channel.waits n = true then some (.ofAnswer a)
        else l.link.channel.outcome? n) ∧
    ∀ m, m ≠ n → (l.act (.hears a)).link.channel.outcome? m = l.link.channel.outcome? m ∧
      (l.act (.hears a)).link.channel.waits m = l.link.channel.waits m
  /-- Who waits has learnt nothing. -/
  waiting : ∀ n, l.link.channel.waits n = true → l.link.channel.outcome? n = none
  /-- Who has learnt nothing when the stream ends, or behind its end, learns of a failure. -/
  ended : ∀ n, l.link.channel.outcome? n = none → ∀ x, l.Due x →
    (l.act x).link.phase ≠ .connected → ∀ l', (l.act x).Reaches l' →
      l'.learns n = .failed .expired ∨ l'.learns n = .failed .disconnected

theorem Orderly.own (h : l.Orderly) (n : Nat) :
    l.learns n = .failed .expired ∨ l.learns n = .failed .disconnected ∨
      ∃ c a, l.Answered n c a ∧ l.learns n = .ofAnswer a := by
  unfold learns
  cases ho : l.link.channel.outcome? n with
  | none => exact Or.inl rfl
  | some o =>
    rcases (h.learnt n o ho).2 with rfl | ⟨c, a, ha, rfl⟩
    · exact Or.inr (Or.inl rfl)
    · exact Or.inr (Or.inr ⟨c, a, ha, rfl⟩)

theorem Orderly.unsent (h : l.Orderly) {n : Nat} (hn : l.Dropped n) (hr : l.Reaches l') :
    n ∉ l'.delivered.map Prod.fst ∧ n ∉ l'.link.channel.pending := by
  have hlater : l'.Orderly ∧ l'.Dropped n := by
    induction hr with
    | refl => exact ⟨h, hn⟩
    | tail _ hs ih =>
      obtain ⟨x, hdue⟩ := hs
      exact ⟨ih.1.act hdue, ih.2.act ih.1 x⟩
  obtain ⟨horderly, _, _, hunsent⟩ := hlater
  exact ⟨hunsent, fun hp => hunsent (horderly.sent n hp)⟩

theorem Orderly.settled (h : l.Orderly) (hphase : l.link.phase = .connected) {a : Answer}
    (hdue : l.answers.length < l.delivered.length) : ∃ n c,
    l.delivered[l.answers.length]? = some (n, c) ∧
    l.link.channel.pending = n :: (l.act (.hears a)).link.channel.pending ∧
    (l.act (.hears a)).link.channel.outcome? n =
      (if l.link.channel.waits n = true then some (.ofAnswer a)
        else l.link.channel.outcome? n) ∧
    ∀ m, m ≠ n → (l.act (.hears a)).link.channel.outcome? m = l.link.channel.outcome? m ∧
      (l.act (.hears a)).link.channel.waits m = l.link.channel.waits m := by
  obtain ⟨n, c, rest, hat, hpending, _⟩ := h.head hphase hdue
  have hchannel : (l.act (.hears a)).link.channel =
      { l.link.channel with pending := rest }.resolve n (.ofAnswer a) := by
    simp [Line.act, Link.act, hphase, Channel.respond, hpending]
  refine ⟨n, c, hat, ?_, ?_, ?_⟩
  · rw [hchannel, Channel.pending_resolve, hpending]
  · rw [hchannel, Channel.outcome?_resolve]
    simp only [true_and]
    rfl
  · intro m hm
    rw [hchannel, Channel.outcome?_resolve, Channel.waits_resolve, if_neg (fun hc => hm hc.1)]
    refine ⟨rfl, ?_⟩
    rw [bne_iff_ne.mpr hm, Bool.and_true]
    rfl

theorem Cut.learns {n : Nat} (h : l.Cut n) (hr : l.Reaches l') :
    l'.learns n = .failed .expired ∨ l'.learns n = .failed .disconnected := by
  have hlater : l'.Cut n := by
    induction hr with
    | refl => exact h
    | tail _ hs ih =>
      obtain ⟨x, _⟩ := hs
      exact cut_act (Link.phase_act ih.1 x) ih.2
  unfold Line.learns
  cases ho : l'.link.channel.outcome? n with
  | none => exact Or.inl rfl
  | some o => exact Or.inr (hlater.2 o ho)

/-- Whatever happens on a link whose exporter answers what is due, in whatever order: answers find
their commands. -/
theorem correlated (h : opening.Reaches l) : l.Correlated := by
  have horderly := orderly_opening.reaches h
  refine ⟨?_, ?_, horderly.own, fun n hn l' hr => horderly.unsent hn hr,
    fun hphase a hdue => horderly.settled hphase hdue, fun n hn => (horderly.waiting n hn).2, ?_⟩
  · have hordered := horderly.ordered
    rw [List.map_append, List.pairwise_append] at hordered
    exact hordered.1.imp Nat.ne_of_lt
  · exact fun n c hc => horderly.known (n, c) (List.mem_append_left _ hc)
  · intro n hn x _ hphase l' hr
    refine (cut_act hphase ?_).learns hr
    intro o ho
    rw [hn] at ho
    cases ho

/-- Two commands are queued. The caller of the first gives up behind its delivery; its late
rejection leaves the second to an answer of its own. -/
def lateAnswer : List LinkAct :=
  [.submits ⟨"rack", "relay", some "board"⟩, .submits ⟨"rack", "lamp", some "board"⟩, .takes,
    .takes, .abandons 0, .takes, .hears ⟨false, some "busy"⟩, .hears Answer.done]

theorem correlated_lateAnswer : opening.Reaches (opening.acts lateAnswer) ∧
    (opening.acts lateAnswer).Correlated ∧
    (opening.acts lateAnswer).learns 0 = .failed .expired ∧
    (opening.acts lateAnswer).learns 1 = .done := by
  have hreaches : opening.Reaches (opening.acts lateAnswer) := reaches_acts (by decide +kernel)
  exact ⟨hreaches, correlated hreaches, by decide +kernel, by decide +kernel⟩

end Line

/-! ## Exchanges -/

namespace Run

variable {ω : Type}

theorem outcomeOf_of_link {hub : Hub} {id : Nat} {l : Line} (hl : hub.link id = some l.link)
    (n : Nat) : outcomeOf hub id n = l.learns n := by
  unfold outcomeOf Line.learns
  rw [hl, Option.bind_some]
  cases l.link.channel.outcome? n <;> rfl

/-- An operation that exchanges a command learns of a failure or of the answer to its own
command, provided that the exporter answers what is due. To the link the exchange is the command,
what happens during the wait, and the end of the wait. -/
theorem exchange_learns (react : Surroundings ω) {r : Run ω} {id : Nat} {l : Line}
    (hf : r.hub.Filed) (hl : r.hub.link id = some l.link) (hreach : Line.opening.Reaches l)
    (c : Command) :
    ∃ xs, xs.filterMap LinkAct.heard =
        (react (withChannel r.hub id (fun ch => ch.submit c)) r.around).1.flatMap
          (Event.answers id) ∧
      (r.exchange react id c).2.hub.link id =
        some ((l.acts (.submits c :: xs)).act (.abandons l.queued.length)).link ∧
      (l.AllDue (.submits c :: xs) → (r.exchange react id c).1 = .failed .expired ∨
        (r.exchange react id c).1 = .failed .disconnected ∨
        ∃ a, (l.acts (.submits c :: xs)).Answered l.queued.length c a ∧
          (r.exchange react id c).1 = .ofAnswer a) := by
  have horderly := Line.orderly_opening.reaches hreach
  have hnumber : nextCommand r.hub id = l.queued.length := by
    unfold nextCommand
    rw [hl]
    exact horderly.next
  have hfiled : (withChannel r.hub id (fun ch => ch.submit c)).Filed :=
    hf.shrink (Hub.shrinks_modifyLink_of (fun _ => Or.inr ⟨rfl, fun hc => hc⟩))
  have hqueued : (withChannel r.hub id (fun ch => ch.submit c)).link id =
      some (l.link.act (.submits c)) := by
    unfold withChannel
    rw [Hub.link_modifyLink, if_pos rfl, hl]
    rfl
  obtain ⟨xs, hxs, hheard⟩ := Hub.conducts_applyAll hfiled
    (react (withChannel r.hub id (fun ch => ch.submit c)) r.around).1 _ hqueued
  have hlink : (l.acts (.submits c :: xs)).link = (l.link.act (.submits c)).acts xs :=
    Line.link_acts l (.submits c :: xs)
  rw [← hlink] at hxs
  refine ⟨xs, hheard, ?_, ?_⟩
  · show (withChannel _ id (fun ch => ch.abandon (nextCommand r.hub id))).link id = _
    unfold withChannel
    rw [Hub.link_modifyLink, if_pos rfl, hnumber]
    exact congrArg (Option.map _) hxs
  · intro hdue
    have hlearns : (r.exchange react id c).1 =
        (l.acts (.submits c :: xs)).learns l.queued.length := by
      rw [← outcomeOf_of_link hxs, ← hnumber]
      rfl
    have hlater := horderly.reaches (Line.reaches_acts hdue)
    -- the number of the command is its place among those that have been queued
    obtain ⟨more, hmore⟩ := Line.queued_acts (l.act (.submits c)) xs
    have hqueue : (l.acts (.submits c :: xs)).queued = l.queued ++ [c] ++ more := hmore.symm
    have hown : (l.acts (.submits c :: xs)).queued[l.queued.length]? = some c := by simp [hqueue]
    rw [hlearns]
    refine (hlater.own l.queued.length).imp_right (Or.imp_right ?_)
    rintro ⟨c', a, hanswered, ho⟩
    have ⟨k, hk, _⟩ := hanswered
    have hknown := hlater.known _ (List.mem_append_left _ (List.mem_of_getElem? hk))
    rw [hown] at hknown
    cases hknown
    exact ⟨a, hanswered, ho⟩

end Run

end BoardFarm
