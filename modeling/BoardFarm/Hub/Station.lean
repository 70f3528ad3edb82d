import BoardFarm.Hub
import BoardFarm.Storage.ResourceDocument
import BoardFarm.Storage.StateDirectory

/-!
# Stations

A station is a hub that keeps its state in a directory. It starts with the stored places, and
saves the places and then the published resources when something has changed. What was to be saved
stays so if not all of it can be written.

* `Station.start`: a station with the stored places.
* `Station.saveIfDirty`, `Station.save`: what is written, and when.
-/

namespace BoardFarm

/-- Why stored places can not be used. -/
inductive StorageError where
  | unreadable
  | malformed
  | pattern (place : String) (cause : PatternError)
  deriving DecidableEq, Repr

namespace StorageError

def message : StorageError → String
  | unreadable => "the stored places can not be read"
  | malformed => "the stored places are malformed"
  | pattern place cause => "place '" ++ place ++ "' has an invalid match: " ++ cause.message

end StorageError

def placesFile : String := "places.yaml"

def resourcesFile : String := "resources.yaml"

namespace StateDirectory

/-- The stored places; a missing file holds none. -/
def loadPlaces (d : StateDirectory) : Except StorageError (SortedMap String Place) :=
  match d.entry placesFile with
  | .absent => .ok SortedMap.empty
  | .directory => .error .unreadable
  | .binary => .error .unreadable
  | .text content =>
    match PlaceDocument.read content with
    | none => .error .malformed
    | some documents =>
      documents.checkValues (fun name document =>
        (document.toPlace name).mapError (.pattern name))

end StateDirectory

namespace Hub

/-- What is stored of the places. -/
def placeDocuments (hub : Hub) : SortedMap String PlaceDocument :=
  hub.places.mapValues (fun _ p => PlaceDocument.ofPlace p)

/-- What is stored of the resources of an exporter. -/
def resourceDocuments (hub : Hub) (s : ExporterSession) :
    SortedMap String (SortedMap String ResourceDocument) :=
  s.tree.mapValues (fun _ named =>
    named.mapValues (fun _ h => ResourceDocument.ofRecord (hub.record h)))

/-- The files that hold the state. -/
def files (hub : Hub) : List (String × String) :=
  [(placesFile, PlaceDocument.write hub.placeDocuments),
   (resourcesFile, ResourceDocument.write (SortedMap.ofList
      (hub.sessions.map (fun e => (e.2.name, hub.resourceDocuments e.2)))))]

end Hub

/-- A hub with the directory of its state, if it has one. -/
structure Station where
  hub : Hub
  directory : Option StateDirectory
  deriving DecidableEq, Repr

namespace Station

/-- A station with the stored places and nothing else. -/
def start (settings : HubSettings) (directory : Option StateDirectory) :
    Except StorageError Station :=
  match directory with
  | none => .ok ⟨Hub.new settings SortedMap.empty, none⟩
  | some d =>
    match d.loadPlaces with
    | .error e => .error e
    | .ok places => .ok ⟨Hub.new settings places, directory⟩

/-- Saves the state if anything has changed. The result tells whether it was written; there is
none if it could not be written in full. -/
def saveIfDirty (s : Station) : Option Bool × Station :=
  match s.directory with
  | none => (some false, s)
  | some d =>
    if s.hub.dirty then
      match d.write s.hub.files with
      | (false, d) => (none, ⟨s.hub, some d⟩)
      | (true, d) => (some true, ⟨{ s.hub with dirty := false }, some d⟩)
    else (some false, s)

/-- Saves the state whether anything has changed or not. -/
def save (s : Station) : Option Bool × Station :=
  { s with hub := s.hub.markDirty }.saveIfDirty

end Station

end BoardFarm
