import BoardFarm.Proofs.Acquaintance
import BoardFarm.Proofs.Fleet
import Mathlib.Logic.Function.Basic

/-!
# Errands

A command travels from the hub to an exporter, and its answer back, behind all that the exporter has
sent before: the command is queued, taken, and served; then the report of the new holder is read,
and at last the confirmation.

* `Stage`, `Errand`: a command and how far it has come.
* `Conversing`: what a link and its exporter hold at each stage.
* `Conversing.takes`, `Conversing.serves`, `Conversing.confirmed`: the steps that concern only the
  link and the exporter.
-/

namespace BoardFarm

/-- How far a command has come. -/
inductive Stage where
  | idle
  | queued
  | taken
  | served
  | reported
  | answered
  deriving DecidableEq, Repr

/-- A command on a link. -/
structure Errand where
  link : Nat
  number : Nat
  path : ResourcePath
  place : Option String

/-- Who holds each resource. -/
abbrev Ledger : Type := ResourcePath → Option String

/-- The holders of an exporter's resources are those of the ledger. -/
def Exporter.Follows (e : Exporter) (ledger : Ledger) : Prop :=
  ∀ ⦃group name : String⦄ ⦃x : Exported⦄, e.find? group name = some x →
    x.holder = ledger (x.path e.name group name)

namespace Errand

def command (o : Errand) : Command := ⟨o.path.group, o.path.name, o.place⟩

def queue (o : Errand) : Stage → List (Nat × Command)
  | .queued => [(o.number, o.command)]
  | _ => []

def pending (o : Errand) : Stage → List Nat
  | .taken | .served | .reported => [o.number]
  | _ => []

def inbox (o : Errand) : Stage → List Command
  | .taken => [o.command]
  | _ => []

/-- The exporter, given what the hub knows of it. -/
def exporter (o : Errand) (known : Exporter) : Stage → Exporter
  | .served => (known.serve o.command).2
  | _ => known

/-- What the exporter has sent about the command. -/
def replies (o : Errand) (known : Exporter) : Stage → List ExporterMessage
  | .served => (known.serve o.command).1
  | .reported => [.response .done]
  | _ => []

/-- The ledger, once the new holder is known. -/
def booked (o : Errand) (ledger : Ledger) : Stage → Ledger
  | .reported | .answered => Function.update ledger o.path o.place
  | _ => ledger

/-- The stage of the command on some link; on other links there is none. -/
def stageOn (o : Errand) (stage : Stage) (id : Nat) : Stage :=
  if id = o.link then stage else .idle

end Errand

/-- Whether the answer to a command is still to come. -/
def Stage.isOpen : Stage → Bool
  | .idle | .answered => false
  | _ => true

/-- A registered exporter at the far end of a link. The hub knows of what it has, but for the
resources that are still announced, and for the command on its way. -/
structure Conversing (o : Errand) (stage : Stage) (records : SortedMap Nat ResourceRecord)
    (l : Link) (s : ExporterSession) (p : Peer) (known : Exporter) (rest : List ResourceReport) :
    Prop where
  acquainted : Acquainted records s known rest
  queue : l.channel.queue = o.queue stage
  pending : l.channel.pending = o.pending stage
  inbox : p.inbox = o.inbox stage
  exporter : p.exporter = o.exporter known stage
  outbox : p.outbox = rest.map .resource ++ o.replies known stage
  numbered : ∀ e ∈ l.channel.outcomes, e.1 < l.channel.next
  sent : stage ≠ .idle → o.number < l.channel.next
  waits : stage.isOpen = true → l.channel.waits o.number = true
  outcome : stage ≠ .idle →
    l.channel.outcome? o.number = if stage = .answered then some .done else none
  drained : stage = .reported ∨ stage = .answered → rest = []
  /-- The command is about a published resource, and is carried out. -/
  lawful : stage ≠ .idle → ∃ h, s.find? o.path.group o.path.name = some h ∧ h.path = o.path ∧
    (stage = .queued ∨ stage = .taken ∨ stage = .served →
      ∃ x, known.find? o.path.group o.path.name = some x ∧
        Exporter.mayChange x.holder o.place = true)

/-- An exporter that is not registered, or not yet. Nothing of it is held, and nothing has been
asked of it. -/
structure Unregistered (l : Link) (p : Peer) : Prop where
  free : ∀ ⦃group name : String⦄ ⦃x : Exported⦄, p.exporter.find? group name = some x →
    x.holder = none
  queue : l.channel.queue = []
  pending : l.channel.pending = []
  outcomes : l.channel.outcomes = []
  inbox : p.inbox = []
  outbox : l.phase = .connected → ∃ version, p.outbox = p.exporter.announce version

/-- A link and the exporter at its far end fit together. -/
inductive Attuned (o : Errand) (stage : Stage) (ledger : Ledger)
    (records : SortedMap Nat ResourceRecord) (l : Link) (p : Peer) : Prop
  | registered {s : ExporterSession} {known : Exporter} {rest : List ResourceReport}
      (hs : l.session = some s) (hc : Conversing o stage records l s p known rest)
      (hf : known.Follows ledger)
  | unregistered (hs : l.session = none) (hidle : stage = .idle) (hu : Unregistered l p)

variable {o : Errand} {stage : Stage} {ledger : Ledger}
  {records records' : SortedMap Nat ResourceRecord} {l l' : Link} {s : ExporterSession}
  {p p' : Peer} {known : Exporter} {rest : List ResourceReport}

/-! ## Commands are taken -/

theorem Peer.receive_of_not_command {d : Option Delivery} (h : ∀ c, d ≠ some (.command c)) :
    p.receive d = p := by
  unfold receive
  split
  · rename_i c
    exact absurd rfl (h c)
  · rfl

theorem Link.deliver_of_queue_nil (hq : l.channel.queue = []) :
    l.deliver.2.channel = l.channel ∧ l.deliver.2.session = l.session ∧
      (l.deliver.2.phase = .connected → l.phase = .connected) ∧
      ∀ c, l.deliver.1 ≠ some (.command c) := by
  have hempty : (!l.channel.queue.isEmpty) = false := by rw [hq]; rfl
  unfold deliver
  rw [hempty]
  split
  · exact ⟨rfl, rfl, fun h => h, by simp⟩
  · split
    · exact ⟨rfl, rfl, fun h => h, by simp⟩
    · simp only [Bool.false_eq_true, if_false]
      split
      · exact ⟨rfl, rfl, fun h => h, by simp⟩
      · split
        · refine ⟨rfl, rfl, ?_, by simp⟩
          intro h
          cases h
        · exact ⟨rfl, rfl, fun h => h, by simp⟩

/-- Of a single command in the queue, either it is delivered, or something else, or nothing. -/
theorem Link.deliver_of_queue_singleton {n : Nat} {c : Command} (hq : l.channel.queue = [(n, c)])
    (hw : l.channel.waits n = true) :
    (l.deliver.2.channel = l.channel ∧ l.deliver.2.session = l.session ∧
      ∀ c, l.deliver.1 ≠ some (.command c)) ∨
    l.deliver = (some (.command c), { l with
      channel := { l.channel with queue := [], pending := l.channel.pending ++ [n] } }) := by
  have hfull : (!l.channel.queue.isEmpty) = true := by rw [hq]; rfl
  have hdeliver : l.channel.deliver = (some c,
      { l.channel with queue := [], pending := l.channel.pending ++ [n] }) := by
    unfold Channel.deliver
    rw [hq]
    exact if_pos hw
  unfold deliver
  rw [hfull, hdeliver]
  split
  · exact Or.inl ⟨rfl, rfl, by simp⟩
  · split
    · exact Or.inl ⟨rfl, rfl, by simp⟩
    · exact Or.inr rfl

/-- The conversation does not depend on what else a link carries. -/
theorem Conversing.of_channel (h : Conversing o stage records l s p known rest)
    (hchannel : l'.channel = l.channel) : Conversing o stage records l' s p known rest := by
  refine ⟨h.acquainted, ?_, ?_, h.inbox, h.exporter, h.outbox, ?_, ?_, ?_, ?_, h.drained,
    h.lawful⟩ <;> rw [hchannel]
  · exact h.queue
  · exact h.pending
  · exact h.numbered
  · exact h.sent
  · exact h.waits
  · exact h.outcome

/-- The queued command is taken, or nothing happens to it. -/
theorem Conversing.takes (h : Conversing o stage records l s p known rest) :
    Conversing o stage records l.deliver.2 s (p.receive l.deliver.1) known rest ∧
        l.deliver.2.session = l.session ∨
      stage = .queued ∧ l.deliver.2.session = l.session ∧
        Conversing o .taken records l.deliver.2 s (p.receive l.deliver.1) known rest := by
  by_cases hstage : stage = .queued
  · subst hstage
    rcases Link.deliver_of_queue_singleton h.queue (h.waits rfl) with ⟨hchannel, hs, hnot⟩ | hd
    · rw [Peer.receive_of_not_command hnot]
      exact Or.inl ⟨h.of_channel hchannel, hs⟩
    · have hpending : l.channel.pending = [] := h.pending
      have hinbox : p.inbox = [] := h.inbox
      rw [hd]
      refine Or.inr ⟨rfl, rfl, h.acquainted, rfl, ?_, ?_, h.exporter, h.outbox, h.numbered,
        fun _ => h.sent (by decide), fun _ => h.waits rfl, fun _ => h.outcome (by decide), ?_, ?_⟩
      · show l.channel.pending ++ [o.number] = [o.number]
        rw [hpending]
        rfl
      · show p.inbox ++ [o.command] = [o.command]
        rw [hinbox]
        rfl
      · rintro (hne | hne) <;> cases hne
      · intro _
        obtain ⟨x, hx, hpath, hlawful⟩ := h.lawful (by decide)
        exact ⟨x, hx, hpath, fun _ => hlawful (Or.inl rfl)⟩
  · have hq : l.channel.queue = [] := by
      rw [h.queue]
      cases stage <;> first | rfl | exact absurd rfl hstage
    obtain ⟨hchannel, hs, _, hnot⟩ := Link.deliver_of_queue_nil hq
    rw [Peer.receive_of_not_command hnot]
    exact Or.inl ⟨h.of_channel hchannel, hs⟩

/-! ## Commands are served -/

/-- The taken command is served, or nothing happens. -/
theorem Conversing.serves (h : Conversing o stage records l s p known rest) :
    Conversing o stage records l s p.serve known rest ∨
      stage = .taken ∧ Conversing o .served records l s p.serve known rest := by
  by_cases hstage : stage = .taken
  · subst hstage
    have hinbox : p.inbox = [o.command] := h.inbox
    have hexporter : p.exporter = known := h.exporter
    have houtbox : p.outbox = rest.map .resource ++ [] := h.outbox
    have hserve : p.serve = ⟨(known.serve o.command).2, [],
        rest.map .resource ++ (known.serve o.command).1⟩ := by
      unfold Peer.serve
      rw [hinbox, hexporter, houtbox, List.append_nil]
    rw [hserve]
    refine Or.inr ⟨rfl, h.acquainted, h.queue, h.pending, rfl, rfl, rfl, h.numbered,
      fun _ => h.sent (by decide), fun _ => h.waits rfl, fun _ => h.outcome (by decide), ?_, ?_⟩
    · rintro (hne | hne) <;> cases hne
    · intro _
      obtain ⟨x, hx, hpath, hlawful⟩ := h.lawful (by decide)
      exact ⟨x, hx, hpath, fun _ => hlawful (Or.inr (Or.inl rfl))⟩
  · have hinbox : p.inbox = [] := by
      rw [h.inbox]
      cases stage <;> first | rfl | exact absurd rfl hstage
    have hserve : p.serve = p := by
      unfold Peer.serve
      rw [hinbox]
    rw [hserve]
    exact Or.inl h

/-! ## Answers are read -/

theorem Channel.outcome?_of_numbered {ch : Channel} (h : ∀ e ∈ ch.outcomes, e.1 < ch.next) :
    ch.outcome? ch.next = none := by
  unfold outcome?
  rw [Option.map_eq_none_iff, List.find?_eq_none]
  intro e he
  have hlt := h e he
  simp only [beq_iff_eq]
  omega

/-- The confirmation is read. -/
theorem Conversing.confirmed (h : Conversing o .reported records l s p known rest) :
    Conversing o .answered records { l with channel := l.channel.respond .done } s p.isRead known
      rest := by
  have hpending : l.channel.pending = [o.number] := h.pending
  have hwaits : ({ l.channel with pending := [] } : Channel).waits o.number = true := h.waits rfl
  have hrespond : l.channel.respond .done =
      { ({ l.channel with pending := [] } : Channel).abandon o.number with
        outcomes := (o.number, .done) :: l.channel.outcomes } := by
    unfold Channel.respond
    rw [hpending]
    exact if_pos hwaits
  have hrest : rest = [] := h.drained (Or.inl rfl)
  have houtbox : p.outbox = rest.map .resource ++ [.response .done] := h.outbox
  rw [hrespond]
  refine ⟨h.acquainted, h.queue, rfl, h.inbox, h.exporter, ?_, ?_, fun _ => h.sent (by decide), ?_,
    ?_, fun _ => hrest, ?_⟩
  · show p.outbox.tail = _
    rw [houtbox, hrest]
    rfl
  · intro e he
    rcases List.mem_cons.mp he with rfl | hold
    · exact h.sent (by decide)
    · exact h.numbered e hold
  · intro hopen
    cases hopen
  · intro _
    show (((o.number, Outcome.done) :: l.channel.outcomes).find? _).map Prod.snd = _
    rw [List.find?_cons_of_pos (by simp)]
    rfl
  · intro _
    obtain ⟨x, hx, hpath, _⟩ := h.lawful (by decide)
    refine ⟨x, hx, hpath, ?_⟩
    rintro (hne | hne | hne) <;> cases hne

end BoardFarm
