import BoardFarm.Hub.Event

/-!
# Operations that exchange commands

While an operation waits for the answer to a command, the surroundings of the hub go on:
exporters receive what they are sent, answer, report, come and go. The surroundings are a
function of the hub and of a state of their own, so nothing is assumed of them. A command that
they leave without an answer expires.

* `Run.command`: one command and its outcome.
-/

namespace BoardFarm

/-- What happens while an operation waits, given the hub and the state of the surroundings. -/
abbrev Surroundings (ω : Type) : Type := Hub → ω → List Event × ω

/-- A command that an operation has tried. -/
structure Attempt where
  /-- The handle of the commanded resource. -/
  handle : Handle
  /-- The holder to be, or none for a release. -/
  place : Option String
  /-- Whether the command was queued for a connected exporter. -/
  sent : Bool
  outcome : Outcome
  /-- The hub when the outcome became known to the operation. -/
  hub : Hub
  deriving DecidableEq, Repr

/-- An operation under way: the hub, the state of the surroundings, and the commands that have
been tried, oldest first. -/
structure Run (ω : Type) where
  hub : Hub
  around : ω
  attempts : List Attempt

namespace Run

variable {ω : Type}

def start (hub : Hub) (around : ω) : Run ω := ⟨hub, around, []⟩

def modify (r : Run ω) (f : Hub → Hub) : Run ω := { r with hub := f r.hub }

def wait (react : Surroundings ω) (r : Run ω) : Run ω :=
  let (events, around) := react r.hub r.around
  { r with hub := r.hub.applyAll events, around := around }

/-- What the caller of a command has learnt by now; an unanswered command has expired. -/
def outcomeOf (hub : Hub) (id command : Nat) : Outcome :=
  match (hub.link id).bind (fun l => l.channel.outcome? command) with
  | some o => o
  | none => .failed .expired

/-- Changes the channel of a link. -/
def withChannel (hub : Hub) (id : Nat) (f : Channel → Channel) : Hub :=
  hub.modifyLink id (fun l => { l with channel := f l.channel })

/-- The number of the next command on a link. -/
def nextCommand (hub : Hub) (id : Nat) : Nat :=
  match hub.link id with
  | none => 0
  | some l => l.channel.next

/-- Sends a command to a connected exporter and waits for its outcome. -/
def exchange (react : Surroundings ω) (r : Run ω) (id : Nat) (c : Command) : Outcome × Run ω :=
  let command := nextCommand r.hub id
  let r := (r.modify (fun hub => withChannel hub id (fun ch => ch.submit c))).wait react
  let outcome := outcomeOf r.hub id command
  (outcome, r.modify (fun hub => withChannel hub id (fun ch => ch.abandon command)))

/-- Notes a command that has been tried. -/
def note (r : Run ω) (a : Attempt) : Run ω := { r with attempts := r.attempts ++ [a] }

/-- Notes the confirmed holder of a resource. -/
def confirm (h : Handle) (place : Option String) (o : Outcome) (r : Run ω) : Run ω :=
  match o with
  | .done => r.modify (fun hub => hub.modifyRecord h (fun x => { x with acquired := place }))
  | .failed _ => r

/-- Commands the exporter of a handle to change the holder of its resource. -/
def command (react : Surroundings ω) (r : Run ω) (h : Handle) (place : Option String) :
    Outcome × Run ω :=
  match r.hub.linkOf h.path.exporter with
  | none =>
    (.failed .unknown, r.note ⟨h, place, false, .failed .unknown, r.hub⟩)
  | some id =>
    let (o, r) := r.exchange react id ⟨h.path.group, h.path.name, place⟩
    (o, (confirm h place o r).note ⟨h, place, true, o, r.hub⟩)

end Run

end BoardFarm
