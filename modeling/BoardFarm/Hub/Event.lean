import BoardFarm.Hub.Publication

/-!
# Events

Events come from the streams of exporters and clients and take effect at once, also while an
operation waits for the answer to a command.

* `Hub.apply`: what an event does.
* `Hub.hearClient`: what a message of a client does.
-/

namespace BoardFarm

/-- What happens on the streams. -/
inductive Event where
  /-- An exporter connects; its link takes the next number. -/
  | exporterOpens
  | exporterSends (link : Nat) (m : ExporterMessage)
  /-- An exporter takes what it is sent next. -/
  | exporterTakes (link : Nat)
  /-- The stream of an exporter ends or fails. -/
  | exporterEnds (link : Nat)
  /-- An exporter stops receiving. -/
  | exporterLeaves (link : Nat)
  /-- A client connects from a network address; its session takes the next number. -/
  | clientOpens (address : Option String)
  | clientStarts (client : Nat) (name version : String)
  | clientSyncs (client : Nat) (id : Nat)
  | clientFollowsResources (client : Nat) (enable : Bool)
  /-- A client stops sending or receiving. -/
  | clientLeaves (client : Nat)
  deriving DecidableEq, Repr

namespace Hub

def withClient (hub : Hub) (id : Nat) (f : ClientSession → ClientSession) : Hub :=
  hub.modifyClient id (fun c => if c.connected then f c else c)

/-- Switches a client's subscription to resources. -/
def followResources (hub : Hub) (id : Nat) (enable : Bool) : Hub :=
  hub.withClient id (fun c => c.subscribeResources enable hub.resourceViews)

/-- Switches a client's subscription to places. No operation may be under way. -/
def followPlaces (hub : Hub) (id : Nat) (enable : Bool) : Hub :=
  hub.withClient id (fun c => c.subscribePlaces enable hub.placeViews)

def apply (hub : Hub) : Event → Hub
  | .exporterOpens => { hub with links := hub.links.insert hub.links.size Link.new }
  | .exporterSends id m => hub.hearExporter id m
  | .exporterTakes id => hub.modifyLink id (fun l => l.deliver.2)
  | .exporterEnds id =>
    hub.disconnect id (fun l => if l.phase = .connected then l.finish else l)
  | .exporterLeaves id => hub.disconnect id Link.close
  | .clientOpens address =>
    { hub with clients := hub.clients.insert hub.clients.size (ClientSession.new address) }
  | .clientStarts id name version =>
    hub.withClient id (fun c => { c with identity := some (name, version) })
  | .clientSyncs id n => hub.withClient id (fun c => c.send ⟨some n, []⟩)
  | .clientFollowsResources id enable => hub.followResources id enable
  | .clientLeaves id => hub.modifyClient id (fun c => { c with connected := false })

/-- What a run of events does. -/
def applyAll (hub : Hub) (events : List Event) : Hub := events.foldl apply hub

/-- Takes a message of a client over. No operation may be under way. -/
def hearClient (hub : Hub) (id : Nat) : ClientRequest → Hub
  | .startup name version => hub.apply (.clientStarts id name version)
  | .sync n => hub.apply (.clientSyncs id n)
  | .subscribe places resources =>
    let hub := match places with
      | some enable => hub.followPlaces id enable
      | none => hub
    match resources with
    | some enable => hub.followResources id enable
    | none => hub
  | .blank => hub

end Hub

end BoardFarm
