import BoardFarm.SortedMap
import BoardFarm.Yaml.Value

/-!
# Records and named values

A mapping is read as a map of names, or as a record with known fields. Names may be repeated,
and the last one counts; known fields may not. Unknown fields of a record are passed over.

* `Document.named`: a map of names.
* `Document.record`: the known fields of a record.
* `Fields.required`, `Fields.defaulted`: the value of a field.
-/

namespace BoardFarm.Yaml

/-- The values of a record by the names of their fields. -/
abbrev Fields : Type := SortedMap String Node

/-- Whether a text occurs more than once. -/
def repeats : List String → Bool
  | [] => false
  | s :: rest => rest.contains s || repeats rest

namespace Document

variable (d : Document)

/-- A mapping of names; a name that is repeated has its last value. -/
def named {α : Type} (read : Node → Decode α) (node : Node) : Decode (SortedMap String α) := do
  return SortedMap.ofList (← d.namedEntries (fun _ => read) node)

def list {α : Type} (read : Node → Decode α) (node : Node) : Decode (List α) := do
  (← d.items node).mapM read

/-- The known fields of a record. -/
def record (known : List String) (node : Node) : Decode Fields := do
  let fields ← d.namedEntries (fun _ node => return node) node
  let fields := fields.filter (fun f => known.contains f.1)
  if repeats (fields.map Prod.fst) then failure
  return SortedMap.ofList fields

end Document

namespace Fields

variable {α : Type} (fields : Fields) (name : String) (read : Node → Decode α)

/-- The value of a field that must be present. -/
def required : Decode α :=
  match fields.get? name with
  | none => failure
  | some node => read node

/-- The value of a field that has a default. -/
def defaulted (default : α) : Decode α :=
  match fields.get? name with
  | none => return default
  | some node => read node

end Fields

end BoardFarm.Yaml
