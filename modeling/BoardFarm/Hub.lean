import BoardFarm.Hub.Client
import BoardFarm.Hub.Link
import BoardFarm.Reconciliation.RetryBudget
import BoardFarm.Reservation
import BoardFarm.Resource
import BoardFarm.StableSort

/-!
# The hub

The hub owns places and reservations, files what the exporters publish, and tells its clients
of every change. What is known of a resource is kept by the serial number of its handles; a
place and an exporter's tree may share a handle.

* `Hub.record`: what is known of the resource of a handle.
* `Hub.sessions`: the registered exporters in order of name.
* `Hub.tellPlaces`, `Hub.tellResources`: how clients learn of changes.
-/

namespace BoardFarm

/-- The periods that reservations are kept, in milliseconds. -/
structure HubSettings where
  reservationTimeout : Nat
  invalidGrace : Nat
  deriving DecidableEq, Repr

/-- Work that waits until no operation is under way. -/
inductive FollowUp where
  | added (h : Handle)
  | removed (h : Handle)
  deriving DecidableEq, Repr

/-- The state of the hub. -/
structure Hub where
  settings : HubSettings
  places : SortedMap String Place
  reservations : SortedMap Token Reservation
  retries : RetryBudget
  /-- What is known of resources, by serial number. -/
  records : SortedMap Nat ResourceRecord
  links : SortedMap Nat Link
  clients : SortedMap Nat ClientSession
  /-- Waiting work by the link that it comes from, in order of arrival. -/
  followUps : List (Nat × FollowUp)
  /-- Whether anything has changed since the state was last saved. -/
  dirty : Bool
  deriving DecidableEq, Repr

namespace Hub

/-- A hub with some places and nothing else. -/
def new (settings : HubSettings) (places : SortedMap String Place) : Hub where
  settings := settings
  places := places
  reservations := SortedMap.empty
  retries := RetryBudget.standard
  records := SortedMap.empty
  links := SortedMap.empty
  clients := SortedMap.empty
  followUps := []
  dirty := false

def markDirty (hub : Hub) : Hub := { hub with dirty := true }

/-! ## Resources -/

/-- A record without content, for handles that have none. -/
def noRecord : ResourceRecord := ⟨"", SortedMap.empty, false, none, false⟩

/-- What is known of the resource of a handle. -/
def record (hub : Hub) (h : Handle) : ResourceRecord := (hub.records.get? h.serial).getD noRecord

/-- Changes what is known of the resource of a handle. -/
def modifyRecord (hub : Hub) (h : Handle) (f : ResourceRecord → ResourceRecord) : Hub :=
  { hub with records := hub.records.modify h.serial f }

/-- The holder of a resource, as its exporter says. -/
def holder (hub : Hub) (h : Handle) : Option String := (hub.record h).acquired

/-- Whether a handle is no longer published although it was held. -/
def isOrphaned (hub : Hub) (h : Handle) : Bool := (hub.record h).orphaned

/-- The resource of a handle, as clients are shown it. -/
def viewOf (hub : Hub) (h : Handle) : ResourceView := (hub.record h).view h.path

/-! ## Exporters and clients -/

def link (hub : Hub) (id : Nat) : Option Link := hub.links.get? id

def modifyLink (hub : Hub) (id : Nat) (f : Link → Link) : Hub :=
  { hub with links := hub.links.modify id f }

/-- Changes the registered exporter of a link. -/
def modifySession (hub : Hub) (id : Nat) (f : ExporterSession → ExporterSession) : Hub :=
  hub.modifyLink id (fun l => { l with session := l.session.map f })

/-- The registered exporter of a link. -/
def session (hub : Hub) (id : Nat) : Option ExporterSession := (hub.link id).bind (·.session)

/-- The registered exporters with their links, in order of name. -/
def sessions (hub : Hub) : List (Nat × ExporterSession) :=
  stableSort (fun a b => decide (a.2.name < b.2.name))
    (hub.links.toList.filterMap (fun e => e.2.session.map (fun s => (e.1, s))))

/-- The link of the registered exporter with a name. -/
def linkOf (hub : Hub) (name : String) : Option Nat :=
  (hub.sessions.find? (fun e => e.2.name == name)).map Prod.fst

/-- The published handles, by exporter, group and name. -/
def published (hub : Hub) : List Handle := hub.sessions.flatMap (fun e => e.2.handles)

/-- The client that acts for a network address: the oldest one with it. -/
def clientAt (hub : Hub) (address : String) : Option ClientSession :=
  hub.clients.values.find? (fun c => c.connected && c.address == some address)

def clientCount (hub : Hub) : Nat := (hub.clients.values.filter (·.connected)).length

def modifyClient (hub : Hub) (id : Nat) (f : ClientSession → ClientSession) : Hub :=
  { hub with clients := hub.clients.modify id f }

/-! ## Messages to clients -/

/-- Tells the subscribers to places of a change. -/
def tellPlaces (hub : Hub) (u : Update) : Hub :=
  { hub with clients := hub.clients.mapValues (fun _ c => c.tellPlaces u) }

/-- Tells the subscribers to resources of a change. -/
def tellResources (hub : Hub) (u : Update) : Hub :=
  { hub with clients := hub.clients.mapValues (fun _ c => c.tellResources u) }

/-- Tells of the present state of a place. -/
def publishPlace (hub : Hub) (p : Place) : Hub := hub.tellPlaces (.place p.view)

/-- Tells of the present state of the resource of a handle. -/
def publishResource (hub : Hub) (h : Handle) : Hub := hub.tellResources (.resource (hub.viewOf h))

/-- Stores a place under its name and tells of it. -/
def storePlace (hub : Hub) (p : Place) : Hub :=
  { hub with places := hub.places.insert p.name p }.publishPlace p

/-! ## Views -/

/-- The places as clients are shown them, in order of name. -/
def placeViews (hub : Hub) : List PlaceView := hub.places.values.map Place.view

/-- The published resources as clients are shown them. -/
def resourceViews (hub : Hub) : List ResourceView := hub.published.map hub.viewOf

end Hub

end BoardFarm
