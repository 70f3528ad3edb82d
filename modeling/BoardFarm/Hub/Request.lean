import BoardFarm.Hub.Configuration
import BoardFarm.Hub.Ownership

/-!
# Requests

The requests that the hub serves, one at a time. A request that needs a user acts for the
client that is connected from the address of the request, whatever else is wrong with it.

* `Hub.principalAt`: the user for whom a request acts.
* `Run.serve`: the answer to a request.
-/

namespace BoardFarm

/-- A request to the hub. An empty user of a release counts as absent. -/
inductive Request where
  | addPlace (name : String)
  | deletePlace (name : String)
  | addAlias (place other : String)
  | deleteAlias (place other : String)
  | setTags (place : String) (tags : SortedMap String String)
  | setComment (place comment : String)
  | addMatch (place pattern : String) (rename : Option String)
  | deleteMatch (place pattern : String) (rename : Option String)
  | acquire (place : String)
  | release (place : String) (user : Option String)
  | allow (place user : String)
  | reserve (filters : Filters) (prio : Double)
  | cancel (token : String)
  | poll (token : String)
  deriving DecidableEq, Repr

/-- What a request that is not refused returns. -/
inductive Reply where
  | done
  | reservation (r : Reservation)
  deriving DecidableEq, Repr

namespace Hub

/-- The user for whom a request from an address acts. -/
def principalAt (hub : Hub) : Option String → Except RequestError String
  | none => .error .noAddress
  | some address =>
    match (hub.clientAt address).bind ClientSession.principal with
    | none => .error .noClient
    | some user => .ok user

end Hub

namespace Run

variable {ω : Type}

/-- Takes the outcome of a change over; a refused change leaves the hub as it is. -/
def change (r : Run ω) : Except RequestError Hub → Except RequestError Reply × Run ω
  | .error e => (.error e, r)
  | .ok hub => (.ok .done, { r with hub := hub })

/-- Takes the outcome of a change that concerns a reservation over. -/
def answer (r : Run ω) : Except RequestError (Reservation × Hub) →
    Except RequestError Reply × Run ω
  | .error e => (.error e, r)
  | .ok (reservation, hub) => (.ok (.reservation reservation), { r with hub := hub })

/-- Goes on with the user for whom a request acts. -/
def withPrincipal (r : Run ω) (address : Option String)
    (serve : String → Except RequestError Reply × Run ω) : Except RequestError Reply × Run ω :=
  match r.hub.principalAt address with
  | .error e => (.error e, r)
  | .ok user => serve user

/-- Answers a request from an address. A reservation that is made gets the token. -/
def serve (react : Surroundings ω) (now : Nat) (token : Token) (address : Option String)
    (request : Request) (r : Run ω) : Except RequestError Reply × Run ω :=
  match request with
  | .addPlace name => r.change (r.hub.addPlace now name)
  | .deletePlace name => r.change (r.hub.deletePlace now name)
  | .addAlias place other => r.change (r.hub.addAlias now place other)
  | .deleteAlias place other => r.change (r.hub.deleteAlias now place other)
  | .setTags place tags => r.change (r.hub.setTags now place tags)
  | .setComment place comment => r.change (r.hub.setComment now place comment)
  | .addMatch place pattern rename => r.change (r.hub.addMatch now place pattern rename)
  | .deleteMatch place pattern rename => r.change (r.hub.deleteMatch now place pattern rename)
  | .acquire place =>
    r.withPrincipal address (fun user =>
      let (outcome, r) := acquirePlace react now place user r
      (outcome.map (fun _ => .done), r))
  | .release place user =>
    let (outcome, r) := releasePlace react now place (nonEmpty? user) r
    (outcome.map (fun _ => .done), r)
  | .allow place user =>
    r.withPrincipal address (fun principal => r.change (r.hub.allow now place principal user))
  | .reserve filters prio =>
    r.withPrincipal address (fun user => r.answer (r.hub.reserve now token user filters prio))
  | .cancel text => r.change (r.hub.cancel now text)
  | .poll text => r.answer (r.hub.poll now text)

end Run

end BoardFarm
