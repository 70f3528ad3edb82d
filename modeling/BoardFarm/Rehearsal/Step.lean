import BoardFarm.Rehearsal.Stage

/-!
# Steps of a rehearsal

A rehearsal goes on in steps: requests, work of the station, and what the peers do. The clock
moves by a millisecond before each step, and the stage settles behind it.

* `Stage.play`: one step and its result.
-/

namespace BoardFarm.Rehearsal

/-- The background work of a station. -/
inductive Worker where
  | schedule
  | synchronize
  | persist
  deriving DecidableEq, Repr

/-- A step of a rehearsal. -/
inductive Step where
  | request (address : Option String) (r : Request)
  | schedule
  | synchronize
  | advance (ms : Nat)
  | work (worker : Worker) (ticks : Nat)
  /-- Saves if anything has changed, or in any case. -/
  | save (always : Bool)
  /-- Starts anew with the same directory, in which the places may be overwritten. -/
  | restart (places : Option String)
  | openClient (label : String) (address : Option String) (startup : Option (String × String))
  | openScripted (label : String) (startup : Option (String × String))
  | openGenuine (label name yaml : String)
  /-- Opens the exporter that is kept under a label once more. -/
  | reopen (label : String)
  | clientTurn (label : String) (turn : ClientTurn)
  | exporterTurn (label : String) (turn : ExporterTurn)
  | addReplies (label resource : String) (turns : List ExporterTurn)
  | setFallback (label : String) (turn : ExporterTurn)

/-- What a step results in. -/
inductive StepResult where
  | nothing
  | done
  | reply (r : Except RequestError Reply)
  | report (r : SyncReport)
  | worked
  /-- Whether the state was written; there is no answer if it could not be. -/
  | saved (written : Option Bool)
  /-- Whether the state could be saved. -/
  | savedAlways (isSaved : Bool)
  | started (fault : Option StorageError)
  | opened (fault : Option InventoryError)

namespace Stage

/-! ## Requests and work -/

/-- Whether a request makes a reservation. -/
def isReservation : Request → Bool
  | .reserve _ _ => true
  | _ => false

def serve (s : Stage) (address : Option String) (request : Request) :
    Except RequestError Reply × Stage :=
  let (reply, r) := s.run.serve Cast.react s.now (token (s.issued + 1)) address request
  let isIssued := isReservation request && reply.isOk
  (reply, { s.after r with issued := if isIssued then s.issued + 1 else s.issued })

def schedule (s : Stage) : Stage := s.withHub (s.hub.schedule s.now)

def synchronize (s : Stage) : SyncReport × Stage :=
  let (report, r) := s.run.synchronize Cast.react ⟨[], s.now⟩
  (report, s.after r)

def workOnce (s : Stage) : Worker → Stage
  | .schedule => s.schedule
  | .synchronize => s.synchronize.2
  | .persist => { s with station := s.station.saveIfDirty.2 }

/-- Some rounds of background work; the stage settles behind each of them. -/
def work (worker : Worker) : (ticks : Nat) → Stage → Stage
  | 0, s => s
  | ticks + 1, s => work worker ticks (s.workOnce worker).settle

/-! ## Peers -/

def clientTurn (label : String) (turn : ClientTurn) (s : Stage) : Stage :=
  match s.cast.clients.get? label with
  | none => s
  | some peer =>
    let say := fun (s : Stage) (move : Move ClientRequest) =>
      match move with
      | .say m => s.withHub (s.hub.hearClient peer.session m)
      | .act .closeIn => s.happen [.clientLeaves peer.session]
      | .act .fail => s.happen [.clientLeaves peer.session]
      | .act _ => s
    let s := turn.foldl say s
    let ends := turn.contains (.act .closeIn) || turn.contains (.act .fail)
    let presence :=
      if peer.presence = .gone || Move.leaves turn then .gone
      else if ends then .ending
      else peer.presence
    let s := if Move.leaves turn then s.happen [.clientLeaves peer.session] else s
    { s with
      cast := s.cast.modifyClient label (fun p =>
        { p with receives := Move.receives p.receives turn, presence := presence }) }

def exporterTurn (label : String) (turn : ExporterTurn) (s : Stage) : Stage :=
  match s.cast.exporters.get? label with
  | none => s
  | some peer =>
    let s := s.happen (turnEvents peer.link turn)
    { s with
      cast := s.cast.modifyExporter label (fun p =>
        { p with receives := Move.receives p.receives turn }) }

/-- The events by which the peers of a label leave. -/
def leavingEvents (c : Cast) (label : String) : List Event :=
  (match c.exporters.get? label with
    | some peer => [.exporterLeaves peer.link]
    | none => []) ++
  (match c.clients.get? label with
    | some peer => [.clientLeaves peer.session]
    | none => [])

/-- Lets the peer of a label leave. -/
def dismiss (label : String) (s : Stage) : Stage :=
  let events := leavingEvents s.cast label
  if events.isEmpty then s
  else
    ({ s with
      cast := { s.cast with
        exporters := s.cast.exporters.erase label
        clients := s.cast.clients.erase label } }.happen events).settle

def dismissAll (s : Stage) : Stage :=
  let events := s.cast.exporters.values.map (fun p => Event.exporterLeaves p.link) ++
    s.cast.clients.values.map (fun p => Event.clientLeaves p.session)
  ({ s with cast := { Cast.empty with kept := s.cast.kept } }.happen events).settle

/-- Opens a client under a label. -/
def openClient (label : String) (address : Option String) (startup : Option (String × String))
    (s : Stage) : Stage :=
  let s := s.dismiss label
  let peer : ClientPeer := ⟨s.hub.clients.size, true, .connected, 0⟩
  let s := s.happen [.clientOpens address]
  let s := { s with cast := { s.cast with clients := s.cast.clients.insert label peer } }
  match startup with
  | none => s
  | some (name, version) => clientTurn label [.say (.startup name version)] s

/-- Opens an exporter under a label and lets it take its first turn. -/
def openExporter (label : String) (isGenuine : Bool) (turn : ExporterTurn) (s : Stage) : Stage :=
  let s := s.dismiss label
  let peer : ExporterPeer := ⟨s.hub.links.size, true, Script.empty, isGenuine, []⟩
  let s := s.happen [.exporterOpens]
  let s := { s with cast := { s.cast with exporters := s.cast.exporters.insert label peer } }
  exporterTurn label turn s

/-- The version that an exporter with an inventory announces. -/
def exporterVersion : String := "0.1.0"

/-- Opens an exporter that announces itself. -/
def announce (label : String) (e : Exporter) (s : Stage) : Stage :=
  let s := s.openExporter label true ((e.announce exporterVersion).map .say)
  { s with cast := { s.cast with kept := s.cast.kept.insert label e } }

/-- Opens an exporter with an inventory; nothing is opened without a proper one. -/
def openGenuine (label name yaml : String) (s : Stage) : Option InventoryError × Stage :=
  match Inventory.ofText Catalogue.standard yaml with
  | .error e => (some e, s)
  | .ok inventory => (none, announce label (Exporter.new name inventory) s)

/-- Opens the exporter that is kept under a label, or a silent one. -/
def reopen (label : String) (s : Stage) : Stage :=
  match s.cast.kept.get? label with
  | none => s.openExporter label false []
  | some e => announce label e s

/-! ## Steps -/

/-- Overwrites the stored places, if there is a directory for them. -/
def overwritePlaces (places : Option String) (s : Stage) : Stage :=
  match places, s.station.directory with
  | some text, some d =>
    { s with station := { s.station with directory := some (d.write [(placesFile, text)]).2 } }
  | _, _ => s

/-- Starts a station anew without peers; if it can not start, the old one goes on. -/
def restart (places : Option String) (s : Stage) : Option StorageError × Stage :=
  let s := s.dismissAll.overwritePlaces places
  match Station.start s.settings s.station.directory with
  | .error e => (some e, s)
  | .ok station => (none, { s with station := station })

/-- Saves the state if anything has changed, or in any case. -/
def save (always : Bool) (s : Stage) : StepResult × Stage :=
  if always then
    let (written, station) := s.station.save
    (.savedAlways written.isSome, { s with station := station })
  else
    let (written, station) := s.station.saveIfDirty
    (.saved written, { s with station := station })

/-- What a step does before the stage settles. -/
def act (s : Stage) : Step → StepResult × Stage
  | .request address request =>
    let (reply, s) := s.serve address request
    (.reply reply, s)
  | .schedule => (.nothing, s.schedule)
  | .synchronize =>
    let (report, s) := s.synchronize
    (.report report, s)
  | .advance ms => (.nothing, { s with now := s.now + ms })
  | .work worker ticks => (.worked, work worker ticks s)
  | .save always => s.save always
  | .restart places =>
    let (fault, s) := s.restart places
    (.started fault, s)
  | .openClient label address startup => (.done, s.openClient label address startup)
  | .openScripted label startup =>
    let turn := startup.toList.map (fun e => Move.say (.startup e.1 e.2))
    (.done, s.openExporter label false turn)
  | .openGenuine label name yaml =>
    let (fault, s) := s.openGenuine label name yaml
    (.opened fault, s)
  | .reopen label => (.done, s.reopen label)
  | .clientTurn label turn => (.nothing, s.clientTurn label turn)
  | .exporterTurn label turn => (.nothing, s.exporterTurn label turn)
  | .addReplies label resource turns =>
    (.nothing, { s with
      cast := s.cast.modifyExporter label (fun p =>
        { p with script := p.script.add resource turns }) })
  | .setFallback label turn =>
    (.nothing, { s with
      cast := s.cast.modifyExporter label (fun p =>
        { p with script := { p.script with fallback := some turn } }) })

/-- One step: the clock moves by a millisecond, the step is done, and the stage settles. -/
def play (s : Stage) (step : Step) : StepResult × Stage :=
  let (result, s) := { s with now := s.now + 1 }.act step
  (result, s.settle)

end Stage

end BoardFarm.Rehearsal
