import BoardFarm.Hub.Request
import BoardFarm.Hub.Station
import BoardFarm.Hub.Synchronization
import BoardFarm.Rehearsal.Cast

/-!
# Stages

A stage is a station at a moment of a clock, with its cast. After every step of a rehearsal
the stage settles: whatever has been sent is received and reacted to, and the waiting work is
carried out. Links with waiting work take turns, one piece of work each.

* `Stage.settle`: the stage when nothing is left to do.
* `Stage.heardByClients`, `Stage.heardByExporters`: what peers have received.
-/

namespace BoardFarm.Rehearsal

/-- A station with its cast at a moment. -/
structure Stage where
  station : Station
  settings : HubSettings
  /-- The reading of the clock in milliseconds. -/
  now : Nat
  cast : Cast
  /-- The number of reservations that have been made. -/
  issued : Nat

/-- What a client receives: a message, or the end of its stream. -/
inductive ClientDelivery where
  | message (m : ClientMessage)
  | closed
  deriving DecidableEq, Repr

namespace Stage

/-- The reading of the clock when a rehearsal starts: the first moment of the year 2024. -/
def epoch : Nat := 1704067200000

/-- The token of the reservation with a number. Any tokens that increase would do. -/
def token (n : Nat) : Token := Identifier.ofNat .reservation (1 <<< 127 + n)

def start (settings : HubSettings) (directory : Option StateDirectory) :
    Except StorageError Stage :=
  (Station.start settings directory).map (fun station =>
    { station := station, settings := settings, now := epoch, cast := Cast.empty, issued := 0 })

def hub (s : Stage) : Hub := s.station.hub

def withHub (s : Stage) (hub : Hub) : Stage := { s with station := { s.station with hub := hub } }

def happen (s : Stage) (events : List Event) : Stage := s.withHub (s.hub.applyAll events)

/-- The start of an operation on the stage. -/
def run (s : Stage) : Run Cast := Run.start s.hub s.cast

def after (s : Stage) (r : Run Cast) : Stage := { s.withHub r.hub with cast := r.around }

/-! ## Settling -/

/-- The links with waiting work, in order of arrival. -/
def waitingLinks (hub : Hub) : List Nat := (hub.followUps.map Prod.fst).eraseDups

/-- The turns behind a turn of a link: links with new work come before a further turn of that
link. -/
def nextTurns (hub : Hub) (id : Nat) (rest : List Nat) : List Nat :=
  let waiting := waitingLinks hub
  rest ++ waiting.filter (fun w => w != id && !rest.contains w) ++
    (if waiting.contains id then [id] else [])

/-- Carries waiting work out in turns. -/
def takeTurns (now : Nat) : (fuel : Nat) → (turns : List Nat) → Run Cast → Run Cast
  | 0, _, r => r
  | _ + 1, [], r => r
  | fuel + 1, id :: rest, r =>
    let r := (r.nextFollowUp Cast.react now id).wait Cast.react
    takeTurns now fuel (nextTurns r.hub id rest) r

/-- The most turns between two steps. A cast whose replies bring new work for ever never
settles. -/
def maxTurns : Nat := 100000

/-- The stage when nothing is left to do. -/
def settle (s : Stage) : Stage :=
  let r := s.run.wait Cast.react
  s.after (takeTurns s.now maxTurns (waitingLinks r.hub) r)

/-! ## Observations -/

/-- What a client has received since the last observation. -/
def heardByClient (hub : Hub) (p : ClientPeer) : List ClientDelivery :=
  let sent := match hub.clients.get? p.session with
    | none => []
    | some c => (c.sent.drop p.read).map .message
  if !p.receives || p.presence = .gone then []
  else if p.presence = .ending then sent ++ [.closed]
  else sent

/-- What each client has received since the last observation. -/
def heardByClients (s : Stage) : List (String × List ClientDelivery) :=
  s.cast.clients.toList.map (fun e => (e.1, heardByClient s.hub e.2))

/-- What each exporter has received since the last observation. -/
def heardByExporters (s : Stage) : List (String × List Delivery) :=
  s.cast.exporters.toList.map (fun e => (e.1, e.2.heard.reverse))

def observeClient (hub : Hub) (p : ClientPeer) : ClientPeer :=
  if !p.receives || p.presence = .gone then p
  else
    let count := match hub.clients.get? p.session with
      | none => 0
      | some c => c.sent.length
    { p with
      read := count, presence := if p.presence = .ending then .gone else p.presence }

def observe (s : Stage) : Stage :=
  { s with
    cast := { s.cast with
      exporters := s.cast.exporters.mapValues (fun _ p => { p with heard := [] })
      clients := s.cast.clients.mapValues (fun _ p => observeClient s.hub p) } }

end Stage

end BoardFarm.Rehearsal
