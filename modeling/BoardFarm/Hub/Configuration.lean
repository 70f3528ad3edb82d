import BoardFarm.Hub.Allocation

/-!
# Configuration of places

Places are added and deleted, and their aliases, tags, comments and matches are changed. A
refused change leaves the hub as it is; any other one notes the time, is told to the clients
and is to be saved.

* `Hub.updatePlace`: the common course of a change.
* `Hub.ownerOfAlias`: the place that uses a name as an alias.
-/

namespace BoardFarm.Hub

/-- The first place that has a name as an alias. -/
def ownerOfAlias (hub : Hub) (name : String) : Option Place :=
  hub.places.values.find? (fun p => p.aliases.has name)

def updatePlace (hub : Hub) (now : Nat) (name : String)
    (change : Place → Except RequestError Place) : Except RequestError Hub :=
  match hub.places.get? name with
  | none => .error (.noPlace name)
  | some p =>
    match change p with
    | .error e => .error e
    | .ok p => .ok (hub.storePlace (p.touch now)).markDirty

/-- Adds a place. Its name may be neither the name nor an alias of a place. -/
def addPlace (hub : Hub) (now : Nat) (name : String) : Except RequestError Hub :=
  if name.isEmpty then .error .emptyPlaceName
  else if hub.places.contains name then .error (.placeExists name)
  else
    match hub.ownerOfAlias name with
    | some owner => .error (.nameIsAlias name owner.name)
    | none => .ok ((hub.storePlace (Place.new name now)).markDirty.schedule now)

def deletePlace (hub : Hub) (now : Nat) (name : String) : Except RequestError Hub :=
  if hub.places.contains name then
    let hub := { hub with places := hub.places.erase name }
    .ok ((hub.tellPlaces (.deletedPlace name)).markDirty.schedule now)
  else .error (.noPlace name)

/-- Adds an alias, which may be neither the name nor an alias of a place. -/
def addAlias (hub : Hub) (now : Nat) (name other : String) : Except RequestError Hub :=
  if other.isEmpty then .error .emptyAlias
  else if hub.places.contains other then .error (.aliasIsPlace other)
  else
    match hub.ownerOfAlias other with
    | some owner => .error (.aliasInUse other owner.name)
    | none =>
      hub.updatePlace now name (fun p => .ok { p with aliases := p.aliases.add other })

def deleteAlias (hub : Hub) (now : Nat) (name other : String) : Except RequestError Hub :=
  hub.updatePlace now name (fun p =>
    if p.aliases.has other then .ok { p with aliases := p.aliases.remove other }
    else .error (.noAlias p.name other))

/-- Sets tags; an empty value removes its tag. -/
def setTags (hub : Hub) (now : Nat) (name : String) (tags : SortedMap String String) :
    Except RequestError Hub :=
  match Tag.checkAll tags.toList with
  | .error cause => .error (.tag cause)
  | .ok () =>
    (hub.updatePlace now name (fun p =>
      .ok { p with tags := Place.setTags p.tags tags.toList })).map (fun hub => hub.schedule now)

def setComment (hub : Hub) (now : Nat) (name comment : String) : Except RequestError Hub :=
  hub.updatePlace now name (fun p => .ok { p with comment := comment })

/-- Adds a match; a place has no two matches of one pattern. -/
def addMatch (hub : Hub) (now : Nat) (name pattern : String) (rename : Option String) :
    Except RequestError Hub :=
  match ResourceMatch.parse pattern rename with
  | .error cause => .error (.pattern cause)
  | .ok m =>
    hub.updatePlace now name (fun p =>
      if p.patterns.any (fun other => other.sameTarget m) then
        .error (.matchExists p.name m.text)
      else .ok { p with patterns := p.patterns ++ [m] })

/-- Whether a match of a place is the one to be deleted: it has the pattern, and the client
name if one is given. -/
def isTarget (target m : ResourceMatch) : Bool :=
  m.sameTarget target && (target.rename.isNone || m.rename == target.rename)

/-- Deletes the first match of a pattern. -/
def deleteMatch (hub : Hub) (now : Nat) (name pattern : String) (rename : Option String) :
    Except RequestError Hub :=
  match ResourceMatch.parse pattern rename with
  | .error cause => .error (.pattern cause)
  | .ok target =>
    hub.updatePlace now name (fun p =>
      if p.patterns.any (isTarget target) then
        .ok { p with patterns := p.patterns.eraseP (isTarget target) }
      else .error (.noMatch p.name target.text))

end BoardFarm.Hub
