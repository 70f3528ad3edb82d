import BoardFarm.Identifier
import BoardFarm.Matching.ResourceMatch
import BoardFarm.SortedSet
import BoardFarm.Tag
import BoardFarm.Time.Timestamp

/-!
# Places

A place is a named board: it claims resources by matches, and while a user holds the place it
holds handles of the resources that it claimed.

* `Place.claims`: which resources a place claims.
* `Place.schedulingTags`: the tags that a reservation may ask for.
* `PlaceView`: what clients are shown.
-/

namespace BoardFarm

/-- A share in the record of a resource. Two handles of one path are different when the
resource was published anew in between. -/
structure Handle where
  serial : Nat
  path : ResourcePath
  deriving DecidableEq, Repr

/-- A named board with its configuration and its current owner. -/
structure Place where
  name : String
  aliases : SortedSet String
  comment : String
  tags : SortedMap String String
  patterns : List ResourceMatch
  /-- The user who holds the place. -/
  acquired : Option String
  /-- The held handles in the order of their acquisition. -/
  held : List Handle
  /-- Further users who may use the place while it is held. -/
  allowed : SortedSet String
  reservation : Option Token
  created : Timestamp
  changed : Timestamp
  deriving DecidableEq, Repr

/-- A place as clients are shown it. -/
structure PlaceView where
  name : String
  aliases : List String
  comment : String
  tags : SortedMap String String
  patterns : List MatchView
  acquired : Option String
  held : List String
  allowed : List String
  created : Int
  changed : Int
  reservation : Option Token
  deriving DecidableEq, Repr

namespace Place

def new (name : String) (now : Nat) : Place where
  name := name
  aliases := SortedMap.empty
  comment := ""
  tags := SortedMap.empty
  patterns := []
  acquired := none
  held := []
  allowed := SortedMap.empty
  reservation := none
  created := Timestamp.ofMillis now
  changed := Timestamp.ofMillis now

/-- Notes the time of a change. -/
def touch (p : Place) (now : Nat) : Place := { p with changed := Timestamp.ofMillis now }

/-- Whether some match claims a resource. -/
def claims (p : Place) (path : ResourcePath) : Bool := p.patterns.any (fun m => m.claims path)

/-- Whether the place holds a resource of a path. -/
def holdsPath (p : Place) (path : ResourcePath) : Bool := p.held.any (fun h => h.path = path)

/-- The tags of a place, and its name under the key `name`. -/
def schedulingTags (p : Place) : SortedSet Tag :=
  SortedSet.ofList (p.tags.toList.map (fun e => Tag.mk e.1 e.2) ++ [⟨"name", p.name⟩])

/-- Stores tags; an empty value removes its tag. -/
def setTags (tags : SortedMap String String) (updates : List (String × String)) :
    SortedMap String String :=
  updates.foldl (fun m e => if e.2.isEmpty then m.erase e.1 else m.insert e.1 e.2) tags

def view (p : Place) : PlaceView where
  name := p.name
  aliases := p.aliases.members
  comment := p.comment
  tags := p.tags
  patterns := p.patterns.map ResourceMatch.view
  acquired := p.acquired
  held := p.held.map (fun h => h.path.text)
  allowed := p.allowed.members
  created := p.created.toMillis
  changed := p.changed.toMillis
  reservation := p.reservation

end Place

end BoardFarm
