import BoardFarm.Exporter
import BoardFarm.Proofs.Course
import Mathlib.Logic.Relation

/-!
# Fleets

A fleet are the exporters of a hub, each at work at the far end of its link. An exporter is freshly
built when it connects, and announces itself. It serves the commands that it has received one
after another, and its messages are read in the order in which they have been sent; both take
their time. A registered exporter stays connected. As in every course of a station, an operation
goes on to its end once it has begun.

* `Peer`, `Fleet`: the exporters, with the messages on their way.
* `Cue`, `Site.step`: what happens at a hub and its fleet while operations wait, or in between.
* `Fleet.accompany`: a fleet as the surroundings of an operation, whatever decides about the cues.
* `Deployment.Step`, `Deployment.Course`: a station with its fleet.
* `Deployment.Course.station`: the station of a deployment is on a course.
-/

namespace BoardFarm

/-- An exporter at work: what it has received and not yet served, and what it has sent and the hub
has not yet read, oldest first. -/
structure Peer where
  exporter : Exporter
  inbox : List Command
  outbox : List ExporterMessage
  deriving DecidableEq, Repr

namespace Peer

/-- A freshly built exporter that has announced itself. -/
def fresh (name version : String) (inventory : Inventory) : Peer :=
  ⟨.new name inventory, [], (Exporter.new name inventory).announce version⟩

def receive (p : Peer) : Option Delivery → Peer
  | some (.command c) => { p with inbox := p.inbox ++ [c] }
  | _ => p

/-- Serves the oldest command. -/
def serve (p : Peer) : Peer :=
  match p.inbox with
  | [] => p
  | c :: rest =>
    let (messages, exporter) := p.exporter.serve c
    ⟨exporter, rest, p.outbox ++ messages⟩

/-- The first message is read. -/
def isRead (p : Peer) : Peer := { p with outbox := p.outbox.tail }

end Peer

/-- The exporters of a hub by their links. -/
abbrev Fleet : Type := SortedMap Nat Peer

/-- Whether an event concerns clients only. -/
def Event.concernsClients : Event → Bool
  | .clientOpens _ | .clientStarts _ _ _ | .clientSyncs _ _ | .clientFollowsResources _ _
  | .clientLeaves _ => true
  | _ => false

/-- What happens at a hub and its fleet. -/
inductive Cue where
  /-- A freshly built exporter connects. -/
  | opens (name version : String) (inventory : Inventory)
  /-- An exporter takes what it is sent next. -/
  | takes (link : Nat)
  /-- An exporter serves its oldest command. -/
  | serves (link : Nat)
  /-- The hub reads the next message of an exporter. -/
  | reads (link : Nat)
  /-- The stream of an exporter ends that is not registered. -/
  | ends (link : Nat)
  /-- An exporter stops receiving that is not registered. -/
  | leaves (link : Nat)
  | client (e : Event)
  deriving DecidableEq, Repr

/-- A hub and its fleet. -/
structure Site where
  hub : Hub
  fleet : Fleet

namespace Site

/-- The event by which the hub takes part in a cue. -/
def event? (s : Site) : Cue → Option Event
  | .opens _ _ _ => some .exporterOpens
  | .takes id => some (.exporterTakes id)
  | .serves _ => none
  | .reads id => ((s.fleet.get? id).bind (fun p => p.outbox.head?)).map (.exporterSends id)
  | .ends id => if (s.hub.session id).isNone then some (.exporterEnds id) else none
  | .leaves id => if (s.hub.session id).isNone then some (.exporterLeaves id) else none
  | .client e => if e.concernsClients then some e else none

/-- What is delivered on a link next. -/
def delivery? (s : Site) (id : Nat) : Option Delivery := (s.hub.link id).bind (fun l => l.deliver.1)

/-- The fleet behind a cue. -/
def nextFleet (s : Site) : Cue → Fleet
  | .opens name version inventory =>
    s.fleet.insert s.hub.links.size (.fresh name version inventory)
  | .takes id => s.fleet.modify id (fun p => p.receive (s.delivery? id))
  | .serves id => s.fleet.modify id Peer.serve
  | .reads id => s.fleet.modify id Peer.isRead
  | _ => s.fleet

def step (s : Site) (c : Cue) : Site := ⟨s.hub.applyAll (s.event? c).toList, s.nextFleet c⟩

theorem step_of_none {s : Site} {c : Cue} (h : s.event? c = none) :
    s.step c = ⟨s.hub, s.nextFleet c⟩ := by
  unfold step
  rw [h]
  rfl

theorem step_of_some {s : Site} {c : Cue} {e : Event} (h : s.event? c = some e) :
    s.step c = ⟨s.hub.apply e, s.nextFleet c⟩ := by
  unfold step
  rw [h]
  rfl

def play (s : Site) (cues : List Cue) : Site := cues.foldl step s

/-- The events of some cues. -/
def events (s : Site) : List Cue → List Event
  | [] => []
  | c :: rest => (s.event? c).toList ++ (s.step c).events rest

theorem applyAll_events (s : Site) (cues : List Cue) :
    s.hub.applyAll (s.events cues) = (s.play cues).hub := by
  induction cues generalizing s with
  | nil => rfl
  | cons c rest ih =>
    have hstep : s.hub.applyAll ((s.event? c).toList ++ (s.step c).events rest) =
        (s.step c).hub.applyAll ((s.step c).events rest) := List.foldl_append
    exact hstep.trans (ih (s.step c))

end Site

/-- What decides about the cues while an operation waits. -/
abbrev Strategy (σ : Type) : Type := Hub → Fleet → σ → List Cue × σ

/-- A fleet as the surroundings of an operation. -/
def Fleet.accompany {σ : Type} (choose : Strategy σ) : Surroundings (Fleet × σ) :=
  fun hub around =>
    let (cues, x) := choose hub around.1 around.2
    (Site.events ⟨hub, around.1⟩ cues, (Site.play ⟨hub, around.1⟩ cues).fleet, x)

/-- Events come from the fleet, and no place is deleted that is acquired. -/
def Operation.Regular (hub : Hub) : Operation → Prop
  | .event _ => False
  | .request _ _ (.deletePlace name) =>
    ∀ p, hub.places.get? name = some p → p.acquired = none
  | _ => True

/-- A station with its fleet. -/
structure Deployment where
  station : Station
  fleet : Fleet

namespace Deployment

def site (d : Deployment) : Site := ⟨d.station.hub, d.fleet⟩

/-- A cue, or a turn of the station. No command of an operation expires. -/
inductive Step (d : Deployment) : Deployment → Prop
  | cue (c : Cue) : Step d ⟨{ d.station with hub := (d.site.step c).hub }, (d.site.step c).fleet⟩
  | operate {σ : Type} (choose : Strategy σ) (x : σ) (now : Nat) (op : Operation)
      (hregular : op.Regular d.station.hub) {r : Run (Fleet × σ)}
      (hrun : d.station.operate (Fleet.accompany choose) (d.fleet, x) now op = r)
      (htimely : ∀ a ∈ r.attempts, a.outcome ≠ .failed .expired) :
      Step d ⟨{ d.station with hub := r.hub }, r.around.1⟩
  | save : Step d ⟨d.station.save.2, d.fleet⟩
  | saveIfDirty : Step d ⟨d.station.saveIfDirty.2, d.fleet⟩

/-- A station with its fleet on the way. -/
abbrev Course : Deployment → Deployment → Prop := Relation.ReflTransGen Step

/-- The station of a deployment is on a course. -/
theorem Course.station {start d : Deployment} (hc : Course start d) :
    ∃ turns, Station.Course start.station turns d.station := by
  induction hc with
  | refl => exact ⟨[], .start⟩
  | @tail d d' _ hs ih =>
    obtain ⟨turns, hturns⟩ := ih
    cases hs with
    | cue c =>
      cases he : d.site.event? c with
      | none =>
        refine ⟨turns, ?_⟩
        rw [Site.step_of_none he]
        exact hturns
      | some e =>
        have hstep : Station.Step d.station ⟨0, some (.event e), []⟩
            { d.station with hub := d.station.hub.apply e } :=
          .operate (fun _ (around : Unit) => ([], around)) () 0 (.event e)
        have hhub : (d.site.step c).hub = d.station.hub.apply e := by
          rw [Site.step_of_some he]
          rfl
        rw [← hhub] at hstep
        exact ⟨_, hturns.step hstep⟩
    | operate choose x now op _ hrun _ =>
      subst hrun
      exact ⟨_, hturns.step (.operate (Fleet.accompany choose) (d.fleet, x) now op)⟩
    | save => exact ⟨_, hturns.step (.save 0)⟩
    | saveIfDirty => exact ⟨_, hturns.step (.saveIfDirty 0)⟩

end Deployment

end BoardFarm
