import BoardFarm.Number.Double
import BoardFarm.ResourcePath
import BoardFarm.SortedMap

/-!
# Resources

An exporter reports a resource with a class, parameters and the place that holds it. The
record of a resource under a fixed path is updated by further reports; its orphan flag tells
that it is no longer the published record of that path although a place may hold it.

* `ResourceRecord.merge`: a further report leaves the orphan flag alone.
* `ResourceView`: what clients are shown.
-/

namespace BoardFarm

/-- The value of a resource parameter. -/
inductive ParamValue where
  | bool (b : Bool)
  | int (n : Int)
  | float (x : Double)
  | text (s : String)
  deriving DecidableEq, Repr

/-- The holder that an exporter reports for a resource of unknown state. -/
def brokenMarker : String := "<broken>"

/-- A resource as an exporter reports it. Without an address it can not be filed; a parameter
of unknown kind has no value; the empty holder stands for a free resource. -/
structure ResourceReport where
  address : Option (String × String)
  cls : String
  params : SortedMap String (Option ParamValue)
  acquired : String
  avail : Bool
  deriving DecidableEq, Repr

/-- What is known of a resource. -/
structure ResourceRecord where
  cls : String
  params : SortedMap String ParamValue
  avail : Bool
  /-- The holder that the exporter reports, or that it confirmed by a command. -/
  acquired : Option String
  orphaned : Bool
  deriving DecidableEq, Repr

/-- A resource as clients are shown it. -/
structure ResourceView where
  exporter : String
  group : String
  name : String
  cls : String
  params : SortedMap String ParamValue
  acquired : String
  avail : Bool
  orphaned : Bool
  deriving DecidableEq, Repr

/-- The parameters that have a value. -/
def knownParams (m : SortedMap String (Option ParamValue)) : SortedMap String ParamValue :=
  SortedMap.ofList (m.toList.filterMap (fun e => e.2.map (fun v => (e.1, v))))

namespace ResourceRecord

/-- The record of a first report. -/
def ofReport (r : ResourceReport) : ResourceRecord where
  cls := r.cls
  params := knownParams r.params
  avail := r.avail
  acquired := if r.acquired.isEmpty then none else some r.acquired
  orphaned := false

/-- The record after a further report. -/
def merge (old update : ResourceRecord) : ResourceRecord :=
  { update with orphaned := old.orphaned }

/-- Whether the exporter could not tell who holds the resource. -/
def isBroken (r : ResourceRecord) : Bool := r.acquired = some brokenMarker

/-- The record of a path, as clients are shown it. -/
def view (r : ResourceRecord) (p : ResourcePath) : ResourceView where
  exporter := p.exporter
  group := p.group
  name := p.name
  cls := r.cls
  params := r.params
  acquired := r.acquired.getD ""
  avail := r.avail
  orphaned := r.orphaned

theorem orphaned_merge (old update : ResourceRecord) :
    (old.merge update).orphaned = old.orphaned := rfl

end ResourceRecord

end BoardFarm
