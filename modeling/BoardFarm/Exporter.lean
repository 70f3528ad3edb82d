import BoardFarm.Exporter.Message
import BoardFarm.Inventory

/-!
# Exporters

An exporter publishes the equipment of an inventory and keeps the place that holds each piece.
It carries a command out unless another place holds the resource, and answers every command
with one response; behind a change it reports the resource first. There is no other equipment than
that of the three built-in classes, whose parameters do not change and which is always available.

* `Exporter.setHolder`: the rule for the holder of a resource.
* `Exporter.serve`: the messages that answer a command.
* `Exporter.announce`: the messages that introduce an exporter.
-/

namespace BoardFarm

/-- A published piece of equipment and the place that holds it. -/
structure Exported where
  equipment : Equipment
  holder : Option String
  deriving DecidableEq, Repr

/-- An exporter with its published equipment by group and name. -/
structure Exporter where
  name : String
  groups : SortedMap String (SortedMap String Exported)
  deriving DecidableEq, Repr

/-- Why the holder of a resource is not changed. -/
inductive HolderError where
  | unknownResource (group name : String)
  | held (group name holder : String)
  deriving DecidableEq, Repr

namespace HolderError

def message : HolderError → String
  | unknownResource group name => "resource " ++ group ++ "/" ++ name ++ " is not exported"
  | held group name holder =>
    "resource " ++ group ++ "/" ++ name ++ " is already acquired by " ++ holder

end HolderError

namespace Exporter

/-- An exporter of an inventory in which nothing is held. -/
def new (name : String) (inventory : Inventory) : Exporter where
  name := name
  groups := inventory.mapValues (fun _ named => named.mapValues (fun _ e => ⟨e, none⟩))

/-- The published equipment under a group and a name. -/
def find? (e : Exporter) (group name : String) : Option Exported :=
  (e.groups.get? group).bind (fun named => named.get? name)

/-- The place that holds a resource. -/
def holder? (e : Exporter) (group name : String) : Option String :=
  (e.find? group name).bind (·.holder)

def size (e : Exporter) : Nat := e.groups.values.foldl (fun n named => n + named.size) 0

/-- Replaces the holder of a published resource. -/
def withHolder (e : Exporter) (group name : String) (holder : Option String) : Exporter :=
  { e with
    groups := e.groups.modify group (fun named =>
      named.modify name (fun x => { x with holder := holder })) }

/-- Whether a resource with a holder may get another one: it may be freed, and its holder may
acquire it once more. -/
def mayChange (old new : Option String) : Bool :=
  match old, new with
  | some holder, some place => holder == place
  | _, _ => true

/-- Changes the holder of a resource. -/
def setHolder (e : Exporter) (group name : String) (place : Option String) :
    Except HolderError Exporter :=
  match e.find? group name with
  | none => .error (.unknownResource group name)
  | some x =>
    if mayChange x.holder place then .ok (e.withHolder group name place)
    else .error (.held group name (x.holder.getD ""))

/-- What an exporter reports of a resource. -/
def report (group name : String) (x : Exported) : ResourceReport where
  address := some (group, name)
  cls := x.equipment.cls.name
  params := x.equipment.params.mapValues (fun _ v => some v)
  acquired := x.holder.getD ""
  avail := true

/-- The reports of the resources of a group. -/
def groupReports (group : String) (named : SortedMap String Exported) : List ResourceReport :=
  named.toList.map (fun e => report group e.1 e.2)

/-- The reports of all resources, by group and name. -/
def reports (e : Exporter) : List ResourceReport :=
  e.groups.toList.flatMap (fun g => groupReports g.1 g.2)

/-- The messages that introduce an exporter. -/
def announce (e : Exporter) (version : String) : List ExporterMessage :=
  .startup e.name version :: e.reports.map .resource

/-- Carries a command out; the empty place stands for none. -/
def serve (e : Exporter) (c : Command) : List ExporterMessage × Exporter :=
  match e.setHolder c.group c.name (c.place.filter (fun p => !p.isEmpty)) with
  | .error fault => ([.response (.refused fault.message)], e)
  | .ok e =>
    let reports := ((e.find? c.group c.name).map (report c.group c.name)).toList
    (reports.map .resource ++ [.response .done], e)

end Exporter

end BoardFarm
