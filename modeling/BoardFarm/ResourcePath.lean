import BoardFarm.Order

/-!
# Resource paths

A resource is found under the exporter that publishes it, a group, a class and a name.

* `ResourcePath.text`: the four parts joined by slashes.
-/

namespace BoardFarm

/-- The place of a resource: exporter, group, class and name. -/
structure ResourcePath where
  exporter : String
  group : String
  cls : String
  name : String
  deriving DecidableEq, Repr

namespace ResourcePath

/-- The parts in the order in which paths are compared. -/
def parts (p : ResourcePath) : List String := [p.exporter, p.group, p.cls, p.name]

instance : LT ResourcePath := ⟨fun a b => a.parts < b.parts⟩

instance : DecidableLT ResourcePath :=
  fun a b => inferInstanceAs (Decidable (a.parts < b.parts))

instance : KeyOrder ResourcePath :=
  KeyOrder.ofInjective parts (fun _ _ => Iff.rfl)
    (fun a b h => by cases a; cases b; simpa [parts] using h)

def text (p : ResourcePath) : String :=
  p.exporter ++ "/" ++ p.group ++ "/" ++ p.cls ++ "/" ++ p.name

/-- The parts in the order in which a place acquires its resources: the name counts before
the class. -/
def acquisitionParts (p : ResourcePath) : List String := [p.exporter, p.group, p.name, p.cls]

end ResourcePath

end BoardFarm
