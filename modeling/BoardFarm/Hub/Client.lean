import BoardFarm.Place
import BoardFarm.Resource

/-!
# Clients

A client subscribes to places, to resources, or to both. With a subscription it is sent what
there is, and every later change.

* `ClientSession.subscribePlaces`, `ClientSession.subscribeResources`.
* `ClientSession.send`: what a client is sent stays in the record of its session.
-/

namespace BoardFarm

/-- A change of which clients are told. -/
inductive Update where
  | place (view : PlaceView)
  | deletedPlace (name : String)
  | resource (view : ResourceView)
  | deletedResource (path : ResourcePath)
  deriving DecidableEq, Repr

/-- A message to a client: changes, or the echo of a mark. -/
structure ClientMessage where
  sync : Option Nat
  updates : List Update
  deriving DecidableEq, Repr

/-- A message of a client; one without content is passed over. -/
inductive ClientRequest where
  | startup (name version : String)
  | sync (id : Nat)
  | subscribe (places resources : Option Bool)
  | blank
  deriving DecidableEq, Repr

/-- A connected client. -/
structure ClientSession where
  /-- The network address of the client. -/
  address : Option String
  /-- The name and the version that the client has given. -/
  identity : Option (String × String)
  /-- The number of messages before the subscription to places was switched on. -/
  places : Option Nat
  /-- The number of messages before the subscription to resources was switched on. -/
  resources : Option Nat
  /-- The messages to the client, oldest first. -/
  sent : List ClientMessage
  connected : Bool
  deriving DecidableEq, Repr

namespace ClientSession

/-- A client that has sent nothing. -/
def new (address : Option String) : ClientSession := ⟨address, none, none, none, [], true⟩

/-- The name under which the client acts. -/
def principal (c : ClientSession) : Option String := c.identity.map Prod.fst

def send (c : ClientSession) (m : ClientMessage) : ClientSession :=
  { c with sent := c.sent ++ [m] }

/-- Sends changes, if there are any. -/
def sendUpdates (c : ClientSession) (updates : List Update) : ClientSession :=
  if updates.isEmpty then c else c.send ⟨none, updates⟩

/-- Tells a subscriber to places of a change. -/
def tellPlaces (c : ClientSession) (u : Update) : ClientSession :=
  if c.connected && c.places.isSome then c.sendUpdates [u] else c

/-- Tells a subscriber to resources of a change. -/
def tellResources (c : ClientSession) (u : Update) : ClientSession :=
  if c.connected && c.resources.isSome then c.sendUpdates [u] else c

/-- Switches the subscription to places; switched on, it starts with all places. -/
def subscribePlaces (c : ClientSession) (enable : Bool) (places : List PlaceView) :
    ClientSession :=
  match enable, c.places with
  | true, some _ => c
  | true, none => { c.sendUpdates (places.map .place) with places := some c.sent.length }
  | false, _ => { c with places := none }

/-- The most resources in one message. -/
def batchSize : Nat := 100

/-- Cuts a list into parts of a size; the last one may be shorter. -/
def parts {α : Type} (size : Nat) : (fuel : Nat) → List α → List (List α)
  | 0, _ => []
  | fuel + 1, l => if l.isEmpty then [] else l.take size :: parts size fuel (l.drop size)

/-- Switches the subscription to resources; switched on, it starts with all resources. -/
def subscribeResources (c : ClientSession) (enable : Bool) (resources : List ResourceView) :
    ClientSession :=
  match enable, c.resources with
  | true, some _ => c
  | true, none =>
    { (parts batchSize resources.length resources).foldl
        (fun c l => c.sendUpdates (l.map .resource)) c with
      resources := some c.sent.length }
  | false, _ => { c with resources := none }

end ClientSession

end BoardFarm
