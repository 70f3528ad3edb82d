import BoardFarm.Hub.Run
import BoardFarm.Rehearsal.Script

/-!
# Casts

The cast of a rehearsal are the peers of a hub, each with a label. An exporter of the cast
receives what it is sent as long as it reads, and reacts to each command in one go. A reaction
concerns no other exporter, so the exporters may be served one after another.

* `Cast.react`: what the cast does until nothing is left to be received.
-/

namespace BoardFarm.Rehearsal

/-- An exporter of the cast. -/
structure ExporterPeer where
  link : Nat
  /-- Whether the exporter reads what arrives. -/
  receives : Bool
  script : Script
  /-- Whether the exporter answers commands by the inventory that is kept under its label. -/
  isGenuine : Bool
  /-- What has arrived since the last observation, latest first. -/
  heard : List Delivery
  deriving DecidableEq, Repr

/-- Whether a client is connected, has ended its own stream, or is gone. -/
inductive Presence where
  | connected
  | ending
  | gone
  deriving DecidableEq, Repr

/-- A client of the cast. -/
structure ClientPeer where
  session : Nat
  receives : Bool
  presence : Presence
  /-- The number of messages that the client has read. -/
  read : Nat
  deriving DecidableEq, Repr

/-- The peers by label, and the inventories of exporters that are kept under their labels. -/
structure Cast where
  exporters : SortedMap String ExporterPeer
  clients : SortedMap String ClientPeer
  kept : SortedMap String Exporter
  deriving DecidableEq, Repr

/-- What an exporter's turn does to the hub. -/
def turnEvents (link : Nat) (turn : ExporterTurn) : List Event :=
  turn.filterMap (fun move =>
    match move with
    | .say m => some (.exporterSends link m)
    | .act .closeIn => some (.exporterEnds link)
    | .act .fail => some (.exporterEnds link)
    | .act _ => none) ++
  (if Move.leaves turn then [.exporterLeaves link] else [])

namespace Cast

def empty : Cast := ⟨SortedMap.empty, SortedMap.empty, SortedMap.empty⟩

def modifyExporter (c : Cast) (label : String) (f : ExporterPeer → ExporterPeer) : Cast :=
  { c with exporters := c.exporters.modify label f }

def modifyClient (c : Cast) (label : String) (f : ClientPeer → ClientPeer) : Cast :=
  { c with clients := c.clients.modify label f }

/-- How an exporter answers a command by itself: as its inventory says, or by success. -/
def answer (c : Cast) (label : String) (isGenuine : Bool) (command : Command) :
    ExporterTurn × Cast :=
  match if isGenuine then c.kept.get? label else none with
  | none => ([.say (.response .done)], c)
  | some exporter =>
    let (messages, exporter) := exporter.serve command
    (messages.map .say, { c with kept := c.kept.insert label exporter })

/-- The turn by which an exporter reacts to a command. -/
def reply (c : Cast) (label : String) (peer : ExporterPeer) (command : Command) :
    ExporterTurn × Cast :=
  match peer.script.take command.name with
  | some (turn, script) => (turn, c.modifyExporter label (fun p => { p with script := script }))
  | none => c.answer label peer.isGenuine command

/-- The turn by which an exporter reacts to a delivery. -/
def reaction (c : Cast) (label : String) (peer : ExporterPeer) (d : Delivery) :
    ExporterTurn × Cast :=
  let c := c.modifyExporter label (fun p => { p with heard := d :: p.heard })
  match d with
  | .command command =>
    let (turn, c) := c.reply label peer command
    (turn, c.modifyExporter label (fun p => { p with receives := Move.receives p.receives turn }))
  | _ => ([], c)

/-- A cast at work: the hub and the cast as they are by now, and the events so far, last one
first. -/
structure Progress where
  hub : Hub
  cast : Cast
  events : List Event

namespace Progress

def happen (p : Progress) (e : Event) : Progress :=
  { p with hub := p.hub.apply e, events := e :: p.events }

/-- Lets the exporter of a label receive, as long as something is there to be received. -/
def serve (label : String) : (fuel : Nat) → Progress → Progress
  | 0, p => p
  | fuel + 1, p =>
    match p.cast.exporters.get? label with
    | none => p
    | some peer =>
      match p.hub.link peer.link with
      | none => p
      | some link =>
        if peer.receives && link.hasDelivery then
          let (turn, cast) := match link.deliver.1 with
            | none => ([], p.cast)
            | some d => p.cast.reaction label peer d
          let p := ({ p with cast := cast }).happen (.exporterTakes peer.link)
          serve label fuel ((turnEvents peer.link turn).foldl happen p)
        else p

/-- The most deliveries to a link: the greeting, the commands, a refusal and the end. -/
def workload (p : Progress) (link : Nat) : Nat :=
  match p.hub.link link with
  | none => 0
  | some l => l.channel.queue.length + 3

end Progress

/-- What the cast does until nothing is left to be received. -/
def react : Surroundings Cast := fun hub cast =>
  let p := cast.exporters.toList.foldl (fun p e => p.serve e.1 (p.workload e.2.link))
    (⟨hub, cast, []⟩ : Progress)
  (p.events.reverse, p.cast)

end Cast

end BoardFarm.Rehearsal
