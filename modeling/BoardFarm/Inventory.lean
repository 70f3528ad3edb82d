import BoardFarm.Equipment
import BoardFarm.Storage.FileEntry
import BoardFarm.Yaml.Record

/-!
# Inventories

An inventory names the equipment that an exporter publishes, by group and name. It is
described by a YAML document: a mapping of groups to mappings of names to the class and the
parameters of a piece of equipment.

* `Inventory.ofText`: the inventory that a text describes.
* `Inventory.load`: the same for a file.
-/

namespace BoardFarm

/-- A piece of equipment as a document describes it. -/
structure EquipmentEntry where
  cls : String
  params : List (Data × Data)

abbrev Inventory : Type := SortedMap String (SortedMap String Equipment)

/-- Why there is no inventory. -/
inductive InventoryError where
  | unreadable
  | malformed
  | equipment (cause : EquipmentError)
  deriving Repr

namespace Inventory

open Yaml (Node Document Decode)

/-- The key that names the class. -/
def classKey : String := "cls"

/-- The levels of collections around a parameter. -/
def outerLevels : Nat := 3

/-- An entry of a piece of equipment: the class, or a parameter. -/
def decodeField (d : Document) (key : String) (node : Node) : Decode (String ⊕ Data) := do
  if key == classKey then return .inl (← d.text node)
  else return .inr (← d.untyped (Yaml.maxDepth - outerLevels + 1) node)

/-- A piece of equipment: its class and its parameters, each under a key of its own. -/
def decodeEquipment (d : Document) (node : Node) : Decode EquipmentEntry := do
  let fields ← d.namedEntries (decodeField d) node
  if Yaml.repeats (fields.map Prod.fst) then failure
  let classes := fields.filterMap (fun f => f.2.getLeft?)
  let params := fields.filterMap (fun f => f.2.getRight?.map (fun v => (Data.text f.1, v)))
  match classes with
  | [cls] => return ⟨cls, params⟩
  | _ => failure

/-- The described equipment by group and name. -/
def decode (text : String) : Option (SortedMap String (SortedMap String EquipmentEntry)) := do
  let d ← Document.ofText? text
  let groups ← d.decode (d.named (d.named (decodeEquipment d)))
  return groups.getD SortedMap.empty

/-- The inventory that a text describes; groups and names are built in order. -/
def ofText (catalogue : Catalogue) (text : String) : Except InventoryError Inventory :=
  match decode text with
  | none => .error .malformed
  | some groups =>
    (groups.checkValues (fun _ named =>
      named.checkValues (fun _ e => catalogue.build e.cls (.mapping e.params)))).mapError .equipment

/-- The inventory that a file describes. -/
def load (catalogue : Catalogue) (file : FileEntry) : Except InventoryError Inventory :=
  match file.content? with
  | none => .error .unreadable
  | some text => ofText catalogue text

end Inventory

end BoardFarm
