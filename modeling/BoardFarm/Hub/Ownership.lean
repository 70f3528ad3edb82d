import BoardFarm.Hub.Configuration
import BoardFarm.Hub.Run

/-!
# Ownership of places

A user who acquires a place acquires all published resources that it claims, or none. What a
place holds stays with it until the place is released. A resource that appears later is
attached to the acquired place that claims it, if there is only one.

* `Run.acquireAll`: all resources or none.
* `Run.acquirePlace`, `Run.releasePlace`: the requests of users.
* `Run.followUp`: the work behind the appearance and the end of resources.
-/

namespace BoardFarm

namespace Hub

/-- The published handles that a place claims, by exporter, group, name and class. -/
def claimed (hub : Hub) (p : Place) : List Handle :=
  stableSort (fun a b => decide (a.path.acquisitionParts < b.path.acquisitionParts))
    (hub.published.filter (fun h => p.claims h.path))

/-- Another place that holds a path. -/
def otherHolder (hub : Hub) (name : String) (path : ResourcePath) : Option Place :=
  hub.places.values.find? (fun p => p.name != name && p.holdsPath path)

/-- Why a handle can not be acquired for a place: another place holds its path, or its exporter
reports a holder. -/
def obstacle (hub : Hub) (name : String) (h : Handle) : Option RequestError :=
  match hub.otherHolder name h.path with
  | some p => some (.resourceHeld h.path p.name)
  | none => (hub.holder h).map (fun owner => .resourceClaimed h.path owner)

/-- A place after its acquisition by a user. -/
def completeAcquisition (hub : Hub) (now : Nat) (name principal : String)
    (handles : List Handle) : Hub :=
  match hub.places.get? name with
  | none => hub
  | some p =>
    let p := { p with acquired := some principal, held := p.held ++ handles }
    ((hub.storePlace (p.touch now)).markDirty).schedule now

def completeRelease (hub : Hub) (now : Nat) (name : String) : Hub :=
  match hub.places.get? name with
  | none => hub
  | some p =>
    let p := { p with acquired := none, held := [], allowed := SortedMap.empty }
    ((hub.storePlace (p.touch now)).markDirty).schedule now

/-- A place with a further handle. -/
def attach (hub : Hub) (now : Nat) (name : String) (h : Handle) : Hub :=
  match hub.places.get? name with
  | none => hub
  | some p => hub.storePlace ({ p with held := p.held ++ [h] }.touch now)

/-- Allows a further user to use a place; only its owner may do so. -/
def allow (hub : Hub) (now : Nat) (name principal user : String) : Except RequestError Hub :=
  if user.isEmpty then .error .emptyUser
  else
    hub.updatePlace now name (fun p =>
      match p.acquired with
      | none => .error (.placeFree name)
      | some owner =>
        if owner = principal then .ok { p with allowed := p.allowed.add user }
        else .error (.notOwner name owner))

/-! ## Default places -/

/-- Whether the name of a group is a number. -/
def isNumeric (group : String) : Bool := !group.isEmpty && group.toList.all Digits.isDigit

/-- The match of a default place. -/
def defaultPattern (group : String) : String := "*/" ++ group ++ "/*"

/-- A numeric group without a place of its name gets one, which claims its resources. -/
def addDefaultPlace (hub : Hub) (now : Nat) (group : String) : Hub :=
  if isNumeric group && !hub.places.contains group then
    match ResourceMatch.parse (defaultPattern group) none with
    | .error _ => hub
    | .ok m =>
      ((hub.storePlace { Place.new group now with patterns := [m] }).markDirty).schedule now
  else hub

/-- The acquired places that claim a path. -/
def claimants (hub : Hub) (path : ResourcePath) : List Place :=
  hub.places.values.filter (fun p => p.acquired.isSome && p.claims path)

/-- The place to which a new handle is to be attached: the only acquired place that claims it,
unless its exporter reports a holder or the place holds its path already. -/
def attachTarget (hub : Hub) (h : Handle) : Option Place :=
  match hub.claimants h.path with
  | [p] => if (hub.holder h).isSome || p.holdsPath h.path then none else some p
  | _ => none

/-- Tells of the places that hold a handle. -/
def publishHolders (hub : Hub) (h : Handle) : Hub :=
  (hub.places.values.filter (fun p => p.held.any (fun held => held.serial == h.serial))).foldl
    publishPlace hub

end Hub

namespace Run

variable {ω : Type} (react : Surroundings ω)

/-- Releases the resource of a handle; if that fails, its present state is told. -/
def release (r : Run ω) (h : Handle) : Run ω :=
  let (o, r) := r.command react h none
  match o with
  | .done => r
  | .failed _ => r.modify (fun hub => hub.publishResource h)

/-- Acquires handles for a place one after another. After a failure those that have been
acquired are released, the last one first. -/
def acquireEach (name : String) :
    (handles acquired : List Handle) → Run ω → Except RequestError (List Handle) × Run ω
  | [], acquired, r => (.ok acquired, r)
  | h :: rest, acquired, r =>
    let (o, r) := r.command react h (some name)
    match o with
    | .done => acquireEach name rest (acquired ++ [h]) r
    | .failed cause =>
      (.error (.exporter h.path cause), acquired.reverse.foldl (release react) r)

/-- Acquires all of some handles for a place, or none. Nothing is tried if one of them can not
be acquired. -/
def acquireAll (name : String) (handles : List Handle) (r : Run ω) :
    Except RequestError (List Handle) × Run ω :=
  match handles.findSome? (fun h => r.hub.obstacle name h) with
  | some e => (.error e, r)
  | none => acquireEach react name handles [] r

/-- Why a user may not acquire a place: it is held, or reserved for another user. -/
def acquisitionError (hub : Hub) (p : Place) (principal : String) : Option RequestError :=
  match p.acquired with
  | some owner => some (.placeAcquired p.name owner)
  | none =>
    match p.reservation.bind hub.reservations.get? with
    | none => none
    | some reservation =>
      if reservation.owner = principal then none
      else some (.placeReserved p.name reservation.owner)

/-- Acquires a place for a user, with all resources that it claims. -/
def acquirePlace (now : Nat) (name principal : String) (r : Run ω) :
    Except RequestError Unit × Run ω :=
  match r.hub.places.get? name with
  | none => (.error (.noPlace name), r)
  | some p =>
    match acquisitionError r.hub p principal with
    | some e => (.error e, r)
    | none =>
      match acquireAll react name (r.hub.claimed p) r with
      | (.error e, r) => (.error e, r)
      | (.ok handles, r) =>
        (.ok (), r.modify (fun hub => hub.completeAcquisition now name principal handles))

/-- Releases the handles of a place that are not orphans. -/
def releaseEach (handles : List Handle) (r : Run ω) : Run ω :=
  handles.foldl (fun r h => if r.hub.isOrphaned h then r else release react r h) r

/-- Releases a place. A release on behalf of a user who does not hold the place does nothing. -/
def releasePlace (now : Nat) (name : String) (user : Option String) (r : Run ω) :
    Except RequestError Unit × Run ω :=
  match r.hub.places.get? name with
  | none => (.error (.noPlace name), r)
  | some p =>
    if user.isSome && p.acquired != user then (.ok (), r)
    else if p.acquired.isNone then (.error (.placeFree name), r)
    else
      (.ok (), (releaseEach react p.held r).modify (fun hub => hub.completeRelease now name))

/-- Work behind the appearance of a handle. -/
def resourceAdded (now : Nat) (h : Handle) (r : Run ω) : Run ω :=
  let r := r.modify (fun hub => hub.addDefaultPlace now h.path.group)
  match r.hub.attachTarget h with
  | none => r
  | some p =>
    match acquireAll react p.name [h] r with
    | (.error _, r) => r
    | (.ok _, r) => r.modify (fun hub => hub.attach now p.name h)

/-- Carries a piece of waiting work out. -/
def followUp (now : Nat) (f : FollowUp) (r : Run ω) : Run ω :=
  match f with
  | .added h => resourceAdded react now h r
  | .removed h => r.modify (fun hub => hub.publishHolders h)

/-- Takes the first piece of waiting work of a link and carries it out. -/
def nextFollowUp (now : Nat) (id : Nat) (r : Run ω) : Run ω :=
  match r.hub.followUps.find? (fun e => e.1 == id) with
  | none => r
  | some (_, f) =>
    let r := r.modify (fun hub =>
      { hub with followUps := hub.followUps.eraseP (fun e => e.1 == id) })
    followUp react now f r

end Run

end BoardFarm
