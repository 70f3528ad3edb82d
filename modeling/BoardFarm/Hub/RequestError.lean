import BoardFarm.Hub.Channel
import BoardFarm.Identifier
import BoardFarm.Matching.ResourceMatch
import BoardFarm.Reservation

/-!
# Refused requests

Every cause for which the hub refuses a request, with its wording and the status under which
it is reported.

* `RequestError.message`, `RequestError.status`.
-/

namespace BoardFarm

/-- The kinds of refusals. -/
inductive Status where
  | invalidArgument
  | notFound
  | alreadyExists
  | failedPrecondition
  | permissionDenied
  | deadlineExceeded
  | unavailable
  deriving DecidableEq, Repr

/-- Why a request is refused. -/
inductive RequestError where
  | emptyPlaceName
  | placeExists (name : String)
  | nameIsAlias (name owner : String)
  | noPlace (name : String)
  | emptyAlias
  | aliasIsPlace (name : String)
  | aliasInUse (name owner : String)
  | noAlias (place name : String)
  | tag (cause : TagError)
  | pattern (cause : PatternError)
  | matchExists (place text : String)
  | noMatch (place text : String)
  | resourceHeld (path : ResourcePath) (holder : String)
  | resourceClaimed (path : ResourcePath) (owner : String)
  | exporter (path : ResourcePath) (cause : CommandError)
  | placeAcquired (name owner : String)
  | placeReserved (name owner : String)
  | placeFree (name : String)
  | notOwner (name owner : String)
  | emptyUser
  | priority
  | filter (cause : FilterError)
  | otherToken (text : String)
  | token (cause : IdError)
  | noReservation (text : String)
  | noAddress
  | noClient
  deriving DecidableEq, Repr

namespace RequestError

def message : RequestError → String
  | emptyPlaceName => "place name must not be empty"
  | placeExists name => "place " ++ name ++ " already exists"
  | nameIsAlias name owner => name ++ " is an alias of place " ++ owner
  | noPlace name => "place " ++ name ++ " does not exist"
  | emptyAlias => "alias must not be empty"
  | aliasIsPlace name => "alias " ++ name ++ " is the name of a place"
  | aliasInUse name owner => "alias " ++ name ++ " is already used by place " ++ owner
  | noAlias place name => "place " ++ place ++ " has no alias " ++ name
  | tag cause => cause.message
  | pattern cause => cause.message
  | matchExists place text => "place " ++ place ++ " already has match " ++ text
  | noMatch place text => "place " ++ place ++ " has no match " ++ text
  | resourceHeld path holder => "resource " ++ path.text ++ " is held by place " ++ holder
  | resourceClaimed path owner =>
    "resource " ++ path.text ++ " is already acquired by " ++ owner
  | exporter path cause =>
    "exporter command for " ++ path.text ++ " failed: " ++ cause.message
  | placeAcquired name owner => "place " ++ name ++ " is already acquired by " ++ owner
  | placeReserved name owner => "place " ++ name ++ " is reserved by " ++ owner
  | placeFree name => "place " ++ name ++ " is not acquired"
  | notOwner name owner => "place " ++ name ++ " is acquired by " ++ owner
  | emptyUser => "user must not be empty"
  | priority => "priority must be a finite number"
  | filter cause => cause.message
  | otherToken text => text ++ " is not a reservation token"
  | token cause => "invalid reservation token: " ++ cause.message
  | noReservation text => "reservation " ++ text ++ " does not exist"
  | noAddress => "request has no peer address"
  | noClient => "no client stream with completed startup on this connection"

/-- The status under which a failed command is reported. -/
def commandStatus : CommandError → Status
  | .expired => .deadlineExceeded
  | .disconnected => .unavailable
  | .unknown => .unavailable
  | .rejected _ => .failedPrecondition

/-- The status under which a refusal is reported. -/
def status : RequestError → Status
  | emptyPlaceName => .invalidArgument
  | placeExists _ => .alreadyExists
  | nameIsAlias _ _ => .alreadyExists
  | noPlace _ => .notFound
  | emptyAlias => .invalidArgument
  | aliasIsPlace _ => .alreadyExists
  | aliasInUse _ _ => .alreadyExists
  | noAlias _ _ => .notFound
  | tag _ => .invalidArgument
  | pattern _ => .invalidArgument
  | matchExists _ _ => .alreadyExists
  | noMatch _ _ => .notFound
  | resourceHeld _ _ => .failedPrecondition
  | resourceClaimed _ _ => .failedPrecondition
  | exporter _ cause => commandStatus cause
  | placeAcquired _ _ => .failedPrecondition
  | placeReserved _ _ => .permissionDenied
  | placeFree _ => .failedPrecondition
  | notOwner _ _ => .failedPrecondition
  | emptyUser => .invalidArgument
  | priority => .invalidArgument
  | filter _ => .invalidArgument
  | otherToken _ => .invalidArgument
  | token _ => .invalidArgument
  | noReservation _ => .notFound
  | noAddress => .failedPrecondition
  | noClient => .failedPrecondition

end RequestError

end BoardFarm
