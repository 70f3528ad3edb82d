import BoardFarm.SortedSet

/-!
# Drift plans

Exporters say of each published resource whether it is free, claimed for a place or broken.
The places say which resources they hold. A plan lists the commands that bring the exporters
in line with the places, and the paths that more than one place holds.

* `DriftPlan.make`: the plan for a set of claims and a list of holdings.
-/

namespace BoardFarm

/-- What an exporter says about one of its resources. -/
inductive Claim where
  | free
  | place (name : String)
  | broken
  deriving DecidableEq, Repr

/-- One held resource of a place. -/
structure Holding (π : Type) where
  place : String
  path : π
  /-- The held handle is no longer the published one. -/
  orphaned : Bool
  deriving DecidableEq, Repr

/-- The commands of one reconciliation pass. -/
structure DriftPlan (π : Type) where
  /-- Published resources claimed for a place that does not hold them. -/
  release : List π
  /-- Held resources that are published as free, with their holder. -/
  acquire : List (π × String)
  /-- Orphaned handles whose path is published again, with their holder. -/
  replace : List (π × String)
  /-- Paths that more than one place holds, with all holders. -/
  conflicts : List (π × List String)
  deriving DecidableEq, Repr

namespace DriftPlan

variable {π : Type}

/-- A plan without commands and conflicts. -/
def isEmpty (p : DriftPlan π) : Bool :=
  p.release.isEmpty && p.acquire.isEmpty && p.replace.isEmpty && p.conflicts.isEmpty

/-- Whether a place holds a path. -/
def holds [DecidableEq π] (holdings : List (Holding π)) (path : π) (place : String) : Bool :=
  holdings.any (fun h => h.path = path && h.place == place)

/-- The published paths that are claimed for a place that does not hold them. -/
def strays [DecidableEq π] (holdings : List (Holding π)) : List (π × Claim) → List π
  | [] => []
  | (path, .place q) :: rest =>
    if holds holdings path q then strays holdings rest else path :: strays holdings rest
  | _ :: rest => strays holdings rest

variable [LT π] [DecidableLT π] [KeyOrder π] [DecidableEq π]

/-- Adds a holding to the holders of its path. -/
def addHolder (m : SortedMap π (SortedSet String)) (h : Holding π) :
    SortedMap π (SortedSet String) :=
  m.insert h.path (((m.get? h.path).getD SortedMap.empty).add h.place)

/-- The holders of every held path. -/
def holders (holdings : List (Holding π)) : SortedMap π (SortedSet String) :=
  holdings.foldl addHolder SortedMap.empty

/-- Whether more than one place holds a path. -/
def isContested (hs : SortedMap π (SortedSet String)) (path : π) : Bool :=
  match hs.get? path with
  | none => false
  | some places => 1 < places.members.length

/-- Whether a held resource is to be acquired, and whether its handle is to be replaced. -/
def remedy (claim : Claim) (h : Holding π) : Bool × Bool :=
  match claim with
  | .free => (true, h.orphaned)
  | .place q => (false, q == h.place && h.orphaned)
  | .broken => (false, false)

/-- The holdings of uncontested published paths, with what is to be done about each. -/
def remedies (published : SortedMap π Claim) (holdings : List (Holding π)) :
    List (Holding π × Bool × Bool) :=
  (holdings.filter (fun h => !isContested (holders holdings) h.path)).filterMap (fun h =>
    (published.get? h.path).map (fun claim => (h, remedy claim h)))

/-- The plan for the published claims and the holdings of all places. -/
def make (published : SortedMap π Claim) (holdings : List (Holding π)) : DriftPlan π :=
  let rs := remedies published holdings
  { release := strays holdings published.toList
    acquire := (rs.filter (fun r => r.2.1)).map (fun r => (r.1.path, r.1.place))
    replace := (rs.filter (fun r => r.2.2)).map (fun r => (r.1.path, r.1.place))
    conflicts :=
      ((holders holdings).toList.filter (fun e => 1 < e.2.members.length)).map
        (fun e => (e.1, e.2.members)) }

end DriftPlan

end BoardFarm
