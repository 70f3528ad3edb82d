import BoardFarm.Hub.Allocation
import BoardFarm.Hub.Run
import BoardFarm.Reconciliation.DriftPlan

/-!
# Reconciliation passes

A pass compares what the exporters report with what the acquired places hold, and carries the
plan out by commands: strays are released, lost resources are acquired again, and orphaned
handles are replaced by published ones. The commands for one path fail only so often within a
period; then the path is left alone until the period is over.

While a pass waits for the outcome of a command time goes by: for one that expires, as much as a
command may take. So the clock is read anew whenever the retries of a path are looked at, and
whenever an outcome is noted. Behind the commands nothing is waited for any more, and one moment
does for all handles that are replaced.

* `Clock`: what the clock shows during a pass.
* `Run.synchronize`: one pass.
-/

namespace BoardFarm

/-- What a pass has done. -/
structure SyncReport where
  released : Nat
  acquired : Nat
  replaced : Nat
  failed : Nat
  conflicts : Nat
  deriving DecidableEq, Repr

namespace SyncReport

def nothing : SyncReport := ⟨0, 0, 0, 0, 0⟩

end SyncReport

namespace Hub

/-- What an exporter says about a handle. -/
def claimOf (hub : Hub) (h : Handle) : Claim :=
  match hub.holder h with
  | none => .free
  | some place => if place = brokenMarker then .broken else .place place

def publishedMap (hub : Hub) : SortedMap ResourcePath Handle :=
  SortedMap.ofList (hub.published.map (fun h => (h.path, h)))

def holdings (hub : Hub) : List (Holding ResourcePath) :=
  (hub.places.values.filter (fun p => p.acquired.isSome)).flatMap (fun p =>
    p.held.map (fun h => ⟨p.name, h.path, hub.isOrphaned h⟩))

def driftPlan (hub : Hub) : DriftPlan ResourcePath :=
  DriftPlan.make (hub.publishedMap.mapValues (fun _ h => hub.claimOf h)) hub.holdings

/-- Notes the outcome of a command for a path. -/
def noteOutcome (hub : Hub) (now : Nat) (path : ResourcePath) (o : Outcome) : Hub :=
  match o with
  | .done => { hub with retries := hub.retries.clear path.text }
  | .failed _ => { hub with retries := (hub.retries.fail now path.text).2 }

/-- Replaces the first handle of a path by another one. -/
def replaceHandle (h : Handle) : List Handle → List Handle
  | [] => []
  | old :: rest => if old.path = h.path then h :: rest else old :: replaceHandle h rest

/-- Replaces what a place holds under the path of a handle, unless it is that handle. -/
def replaceHeld (hub : Hub) (now : Nat) (name : String) (h : Handle) : Option Hub :=
  match hub.places.get? name with
  | none => none
  | some p =>
    match p.held.find? (fun old => old.path = h.path) with
    | none => none
    | some old =>
      if old.serial = h.serial then none
      else some (hub.storePlace ({ p with held := replaceHandle h p.held }.touch now))

end Hub

/-- The clock during a pass: its readings, and the moment at which the commands are done with. That
moment is also what it shows where there are no readings left. -/
structure Clock where
  readings : List Nat
  last : Nat
  deriving DecidableEq, Repr

namespace Clock

def now (c : Clock) : Nat := c.readings.headD c.last

/-- The clock at its next reading. -/
def next (c : Clock) : Clock := { c with readings := c.readings.tail }

end Clock

/-- A pass under way: the run, the clock, the report so far, and the paths that are not resolved. -/
structure SyncState (ω : Type) where
  run : Run ω
  clock : Clock
  report : SyncReport
  unresolved : List ResourcePath

namespace SyncState

variable {ω : Type} (react : Surroundings ω) (published : SortedMap ResourcePath Handle)

/-- Commands a published resource unless its retries are used up. The outcome is noted when it has
become known. -/
def command (s : SyncState ω) (path : ResourcePath) (place : Option String) :
    Option Outcome × SyncState ω :=
  match published.get? path with
  | none => (none, s)
  | some h =>
    if s.run.hub.retries.isExhausted s.clock.next.now path.text then
      (none, { s with clock := s.clock.next, unresolved := path :: s.unresolved })
    else
      let (o, run) := s.run.command react h place
      (some o, { s with
        run := run.modify (fun hub => hub.noteOutcome s.clock.next.next.now path o)
        clock := s.clock.next.next })

def countFailure (s : SyncState ω) (path : ResourcePath) : SyncState ω :=
  { s with
    report := { s.report with failed := s.report.failed + 1 }
    unresolved := path :: s.unresolved }

def releaseStray (s : SyncState ω) (path : ResourcePath) : SyncState ω :=
  match s.command react published path none with
  | (none, s) => s
  | (some .done, s) => { s with report := { s.report with released := s.report.released + 1 } }
  | (some (.failed _), s) => s.countFailure path

def acquireLost (s : SyncState ω) (e : ResourcePath × String) : SyncState ω :=
  match s.command react published e.1 (some e.2) with
  | (none, s) => s
  | (some .done, s) => { s with report := { s.report with acquired := s.report.acquired + 1 } }
  | (some (.failed _), s) => s.countFailure e.1

/-- Replaces an orphaned handle, unless its resource could not be acquired. -/
def replaceOrphan (now : Nat) (s : SyncState ω) (e : ResourcePath × String) : SyncState ω :=
  if s.unresolved.contains e.1 then s
  else
    match published.get? e.1 with
    | none => s
    | some h =>
      match s.run.hub.replaceHeld now e.2 h with
      | none => s
      | some hub =>
        { s with
          run := { s.run with hub := hub }
          report := { s.report with replaced := s.report.replaced + 1 } }

end SyncState

namespace Run

variable {ω : Type}

def synchronize (react : Surroundings ω) (c : Clock) (r : Run ω) : SyncReport × Run ω :=
  let published := r.hub.publishedMap
  let plan := r.hub.driftPlan
  let r := r.modify (fun hub => { hub with retries := hub.retries.prune c.now })
  let s : SyncState ω :=
    ⟨r, c, { SyncReport.nothing with conflicts := plan.conflicts.length }, []⟩
  let s := plan.release.foldl (fun s p => s.releaseStray react published p) s
  let s := plan.acquire.foldl (fun s e => s.acquireLost react published e)
    { s with unresolved := [] }
  let s := plan.replace.foldl (fun s e => s.replaceOrphan published c.last e) s
  (s.report, s.run)

end Run

end BoardFarm
