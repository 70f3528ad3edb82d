import BoardFarm.Resource
import BoardFarm.Storage.PlaceDocument

/-!
# Stored resources

The published resources are stored by exporter, group and name, for inspection only.

* `ResourceDocument.write`: the resources as text.
-/

namespace BoardFarm

/-- What is stored of a resource. -/
structure ResourceDocument where
  cls : String
  params : SortedMap String ParamValue
  avail : Bool
  acquired : Option String
  deriving DecidableEq, Repr

namespace ParamValue

def data : ParamValue → Data
  | bool b => .bool b
  | int n => .int n
  | float x => .float x
  | text s => .text s

end ParamValue

namespace ResourceDocument

/-- What is stored of a resource. -/
def ofRecord (r : ResourceRecord) : ResourceDocument := ⟨r.cls, r.params, r.avail, r.acquired⟩

/-- A map of names as untyped data. -/
def mapData {α : Type} (f : α → Data) (m : SortedMap String α) : Data :=
  .mapping (m.toList.map (fun e => (.text e.1, f e.2)))

/-- The stored form of a resource. -/
def data (d : ResourceDocument) : Data :=
  .mapping ([(.text "cls", .text d.cls), (.text "params", mapData ParamValue.data d.params),
    (.text "avail", .bool d.avail)] ++ PlaceDocument.optionalField "acquired" d.acquired)

/-- The text of some resources by exporter, group and name. -/
def write
    (resources : SortedMap String (SortedMap String (SortedMap String ResourceDocument))) :
    String :=
  (mapData (mapData (mapData data)) resources).document

end ResourceDocument

end BoardFarm
