import BoardFarm.Resource

/-!
# Messages between an exporter and the coordinator

The coordinator commands an exporter to change the holder of a resource. The exporter
announces itself, reports its resources, and answers each command.

* `Command`, `Answer`, `ExporterMessage`.
-/

namespace BoardFarm

/-- The order to make a place the holder of a resource, or to free the resource. -/
structure Command where
  group : String
  name : String
  place : Option String
  deriving DecidableEq, Repr

/-- The answer to a command. -/
structure Answer where
  success : Bool
  reason : Option String
  deriving DecidableEq, Repr

namespace Answer

/-- The answer that a command has been carried out. -/
def done : Answer := ⟨true, none⟩

/-- The answer that a command has been refused. -/
def refused (reason : String) : Answer := ⟨false, some reason⟩

end Answer

/-- A message of an exporter; one without content is passed over. -/
inductive ExporterMessage where
  | startup (name version : String)
  | resource (report : ResourceReport)
  | response (answer : Answer)
  | blank
  deriving DecidableEq, Repr

end BoardFarm
