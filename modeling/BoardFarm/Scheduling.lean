import BoardFarm.SortedSet
import BoardFarm.StableSort
import BoardFarm.Tag

/-!
# Scheduling

Filters are given places that carry all of their tags. A pass serves the places with the
fewest fitting filters, in order of name, each with its first fitting filter that the pass has
not used yet; further passes go on with the places and filters that are left.

* `TagSet.fits`: when a filter fits a place.
* `Scheduling.assign`: the places given to the filters.
-/

namespace BoardFarm

/-- A named set of tags: a place with the tags that it offers, or a filter with the tags that
it asks for. Filters of lower rank are served first. -/
structure TagSet where
  name : String
  tags : SortedSet Tag
  rank : Nat
  deriving DecidableEq, Repr

namespace TagSet

/-- A filter fits a place that carries all of its tags. -/
def fits (filter place : TagSet) : Bool := filter.tags.isSubset place.tags

/-- Whether one place is served before another. -/
def nameBefore (a b : TagSet) : Bool := a.name < b.name

/-- Whether one filter is served before another: by rank, then by name. -/
def rankBefore (a b : TagSet) : Bool := a.rank < b.rank || (a.rank == b.rank && a.name < b.name)

end TagSet

namespace Scheduling

/-- A place with the filters that fit it. -/
structure Candidates where
  place : TagSet
  fitting : List TagSet
  deriving Repr

/-- A filter and the place given to it, by name. -/
structure Pairing where
  filter : String
  place : String
  deriving DecidableEq, Repr

/-- The places that some filter fits, with the fitting filters in order. -/
def candidates (places filters : List TagSet) : List Candidates :=
  (places.map (fun p => Candidates.mk p (filters.filter (fun f => f.fits p)))).filter
    (fun c => !c.fitting.isEmpty)

/-- The least number of fitting filters. -/
def fewest (cs : List Candidates) : Option Nat := (cs.map (·.fitting.length)).min?

/-- Serves places one after another; a filter whose name has been used is passed over. -/
def serve : (used : List String) → List Candidates → List Pairing
  | _, [] => []
  | used, c :: rest =>
    match c.fitting.find? (fun f => !used.contains f.name) with
    | none => serve used rest
    | some f => ⟨f.name, c.place.name⟩ :: serve (f.name :: used) rest

/-- One pass: the places with the fewest fitting filters are served. -/
def pass (places filters : List TagSet) : List Pairing :=
  let cs := candidates places filters
  match fewest cs with
  | none => []
  | some n => serve [] (cs.filter (fun c => c.fitting.length == n))

/-- Repeats the pass on what is left until nothing is paired. -/
def passes : (fuel : Nat) → (places filters : List TagSet) → List Pairing
  | 0, _, _ => []
  | fuel + 1, places, filters =>
    match pass places filters with
    | [] => []
    | paired =>
      paired ++ passes fuel
        (places.filter (fun p => !(paired.map (·.place)).contains p.name))
        (filters.filter (fun f => !(paired.map (·.filter)).contains f.name))

/-- The pairings in the order in which they are made. A pass that pairs nothing is the last,
so there are no more passes than places, and one. -/
def pairings (places filters : List TagSet) : List Pairing :=
  passes (places.length + 1) (stableSort TagSet.nameBefore places)
    (stableSort TagSet.rankBefore filters)

/-- The places given to the filters, by name. -/
def assign (places filters : List TagSet) : SortedMap String String :=
  SortedMap.ofList ((pairings places filters).map (fun p => (p.filter, p.place)))

end Scheduling

end BoardFarm
