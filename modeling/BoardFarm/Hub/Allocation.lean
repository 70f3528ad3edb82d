import BoardFarm.Hub.RequestError
import BoardFarm.Hub
import BoardFarm.Scheduling

/-!
# Reservations of the hub

A pass over the reservations deletes, expires, follows and allocates them, in this order, and
then links every place with the reservation that is allocated to it. Every change that may
free or create a place is followed by a pass.

* `Hub.schedule`: one pass.
* `Hub.reserve`, `Hub.cancel`, `Hub.poll`: the requests about reservations.
-/

namespace BoardFarm.Hub

/-- Whether a reservation that has come to its end is kept. -/
def isKept (now : Nat) (r : Reservation) : Bool := !(r.state.isTerminal && r.isOverdue now)

/-- A reservation that was not polled in time expires. -/
def expire (settings : HubSettings) (now : Nat) (r : Reservation) : Reservation :=
  if r.state.expires && r.isOverdue now then
    { r with state := .expired, allocations := SortedMap.empty }.refresh now
      settings.reservationTimeout
  else r

/-- Whether a place is held by a user. -/
def isAcquired (places : SortedMap String Place) (name : String) : Bool :=
  match places.get? name with
  | none => false
  | some p => p.acquired.isSome

/-- A reservation with a place follows it: it is invalid without the place, and otherwise
acquired as long as the place is. -/
def follow (settings : HubSettings) (places : SortedMap String Place) (now : Nat)
    (r : Reservation) : Reservation :=
  if !r.state.hasPlace then r
  else if r.allocatedPlaces.any (fun name => !places.contains name) then
    { r with state := .invalid, allocations := SortedMap.empty }.refresh now settings.invalidGrace
  else if r.allocatedPlaces.any (isAcquired places) then
    { r with state := .acquired }.refresh now settings.reservationTimeout
  else { r with state := .allocated }

def allocatedNames (rs : SortedMap Token Reservation) : List String :=
  (rs.values.filter (fun r => r.state.hasPlace)).flatMap Reservation.allocatedPlaces

/-- The places that may be allocated, with the tags that they offer. -/
def freePlaces (places : SortedMap String Place) (rs : SortedMap Token Reservation) :
    List TagSet :=
  let taken := allocatedNames rs
  (places.values.filter (fun p => p.acquired.isNone && !taken.contains p.name)).map
    (fun p => ⟨p.name, p.schedulingTags, 0⟩)

/-- The waiting reservations in the order of service. -/
def waiting (rs : SortedMap Token Reservation) : List Reservation :=
  stableSort Reservation.precedes (rs.values.filter (fun r => r.state = .waiting))

/-- The tags that waiting reservations ask for, ranked in the order of service. -/
def wanted (rs : SortedMap Token Reservation) : List TagSet :=
  (waiting rs).zipIdx.map (fun e => ⟨e.1.token.text, SortedSet.ofList e.1.mainTags, e.2⟩)

/-- A waiting reservation that is given a place is allocated. -/
def allocate (settings : HubSettings) (now : Nat) (assignment : SortedMap String String)
    (r : Reservation) : Reservation :=
  if r.state = .waiting then
    match assignment.get? r.token.text with
    | none => r
    | some place =>
      { r with
        state := .allocated
        allocations := SortedMap.ofList [(Reservation.mainGroup, [place])] }.refresh now
          settings.reservationTimeout
  else r

def advance (settings : HubSettings) (places : SortedMap String Place) (now : Nat)
    (rs : SortedMap Token Reservation) : SortedMap Token Reservation :=
  let rs := rs.filter (fun _ r => isKept now r)
  let rs := rs.mapValues (fun _ r => follow settings places now (expire settings now r))
  let assignment := Scheduling.assign (freePlaces places rs) (wanted rs)
  rs.mapValues (fun _ r => allocate settings now assignment r)

def owners (rs : SortedMap Token Reservation) : SortedMap String Token :=
  SortedMap.ofList ((rs.values.filter (fun r => r.state.hasPlace)).flatMap (fun r =>
    r.allocatedPlaces.map (fun name => (name, r.token))))

/-- Links a place with its reservation; a change is told. -/
def linkPlace (now : Nat) (owners : SortedMap String Token) (hub : Hub) (p : Place) : Hub :=
  if p.reservation = owners.get? p.name then hub
  else hub.storePlace ({ p with reservation := owners.get? p.name }.touch now)

def schedule (hub : Hub) (now : Nat) : Hub :=
  let rs := advance hub.settings hub.places now hub.reservations
  hub.places.values.foldl (linkPlace now (owners rs)) { hub with reservations := rs }

/-! ## Requests -/

/-- Makes a reservation and tries to allocate it at once. -/
def reserve (hub : Hub) (now : Nat) (token : Token) (owner : String) (filters : Filters)
    (prio : Double) : Except RequestError (Reservation × Hub) :=
  if !prio.isFinite then .error .priority
  else
    match Reservation.checkFilters filters with
    | .error cause => .error (.filter cause)
    | .ok () =>
      let r := Reservation.new token owner filters prio now hub.settings.reservationTimeout
      let hub := { hub with reservations := hub.reservations.insert token r }.schedule now
      .ok ((hub.reservations.get? token).getD r, hub)

/-- Reads the token of a reservation. -/
def readToken (text : String) : Except RequestError Token :=
  match Identifier.parse .reservation text with
  | .ok token => .ok token
  | .error cause => .error (if cause.isWrongKind then .otherToken text else .token cause)

/-- The reservation that a token names. -/
def findReservation (hub : Hub) (text : String) : Except RequestError Reservation :=
  match readToken text with
  | .error e => .error e
  | .ok token =>
    match hub.reservations.get? token with
    | none => .error (.noReservation text)
    | some r => .ok r

def cancel (hub : Hub) (now : Nat) (text : String) : Except RequestError Hub :=
  match hub.findReservation text with
  | .error e => .error e
  | .ok r => .ok ({ hub with reservations := hub.reservations.erase r.token }.schedule now)

/-- Moves the deadline of a reservation, unless it has come to its end. -/
def poll (hub : Hub) (now : Nat) (text : String) : Except RequestError (Reservation × Hub) :=
  match hub.findReservation text with
  | .error e => .error e
  | .ok r =>
    if r.state.isTerminal then .ok (r, hub)
    else
      let r := r.refresh now hub.settings.reservationTimeout
      .ok (r, { hub with reservations := hub.reservations.insert r.token r })

end BoardFarm.Hub
