import BoardFarm.Identifier
import BoardFarm.Number.Double
import BoardFarm.SortedMap
import BoardFarm.Tag
import BoardFarm.Time.Timestamp

/-!
# Reservations

A reservation waits for a place that carries its tags, is allocated to one, and is acquired
while its owner holds that place. Unless it is polled, a waiting or allocated reservation
expires at its deadline.

* `Reservation.checkFilters`: which filters may be asked for.
* `Reservation.isOverdue`: whether the deadline has passed.
-/

namespace BoardFarm

/-- The stages of a reservation. -/
inductive ReservationState where
  | waiting
  | allocated
  | acquired
  | expired
  | invalid
  deriving DecidableEq, Repr

namespace ReservationState

/-- Waiting and allocated reservations expire unless they are polled. -/
def expires : ReservationState → Bool
  | waiting => true
  | allocated => true
  | _ => false

/-- Expired and invalid reservations are kept only until their deadline. -/
def isTerminal : ReservationState → Bool
  | expired => true
  | invalid => true
  | _ => false

/-- Allocated and acquired reservations have a place. -/
def hasPlace : ReservationState → Bool
  | allocated => true
  | acquired => true
  | _ => false

end ReservationState

/-- Why filters may not be reserved. -/
inductive FilterError where
  | noGroups
  | unsupportedGroup (group : String)
  | tag (cause : TagError)
  deriving DecidableEq, Repr

namespace FilterError

def message : FilterError → String
  | noGroups => "invalid reservation filter: no filter groups"
  | unsupportedGroup g => "invalid reservation filter: unsupported filter group '" ++ g ++ "'"
  | tag cause => cause.message

end FilterError

/-- Tags asked for, by filter group. -/
abbrev Filters : Type := SortedMap String (SortedMap String String)

/-- A claim on some place for an owner. -/
structure Reservation where
  token : Token
  owner : String
  prio : Double
  filters : Filters
  allocations : SortedMap String (List String)
  state : ReservationState
  created : Nat
  timeout : Nat
  deriving DecidableEq, Repr

namespace Reservation

/-- The one filter group that is scheduled. -/
def mainGroup : String := "main"

/-- A waiting reservation with a deadline some time from now. -/
def new (token : Token) (owner : String) (filters : Filters) (prio : Double) (now delay : Nat) :
    Reservation where
  token := token
  owner := owner
  prio := prio
  filters := filters
  allocations := SortedMap.empty
  state := .waiting
  created := now
  timeout := Timestamp.deadline now delay

/-- Checks the groups in order; only the main group is known. -/
def checkGroups : List (String × SortedMap String String) → Except FilterError Unit
  | [] => .ok ()
  | (group, filter) :: rest =>
    if group ≠ mainGroup then .error (.unsupportedGroup group)
    else
      match Tag.checkAll filter.toList with
      | .error e => .error (.tag e)
      | .ok () => checkGroups rest

/-- Accepts a main group of well-formed tags, and nothing else. -/
def checkFilters (filters : Filters) : Except FilterError Unit :=
  if filters.isEmpty then .error .noGroups else checkGroups filters.toList

/-- Moves the deadline to some time from now. -/
def refresh (r : Reservation) (now delay : Nat) : Reservation :=
  { r with timeout := Timestamp.deadline now delay }

def isOverdue (r : Reservation) (now : Nat) : Bool := r.timeout < now

/-- The allocated places of all groups. -/
def allocatedPlaces (r : Reservation) : List String := r.allocations.values.flatten

/-- The tags of the main group. -/
def mainTags (r : Reservation) : List Tag :=
  match r.filters.get? mainGroup with
  | none => []
  | some m => m.toList.map (fun e => Tag.mk e.1 e.2)

/-- The order of service: higher priority first, then the earlier, then the smaller token. -/
def precedes (a b : Reservation) : Bool :=
  b.prio.rank < a.prio.rank ||
    (a.prio.rank == b.prio.rank &&
      (a.created < b.created || (a.created == b.created && a.token < b.token)))

end Reservation

end BoardFarm
