import BoardFarm.Hub.Channel
import BoardFarm.Place

/-!
# Links to exporters

A link is the pair of message streams between the hub and an exporter. The exporter is
registered by its startup message; then its resources are filed in a tree. A link without a
usable name is refused. When the exporter's stream ends, what has been queued for it may still
be delivered before the link is closed.

* `Link.deliver`: what the exporter is sent next.
* `ExporterSession.handles`: the published handles of an exporter.
-/

namespace BoardFarm

abbrev ResourceTree : Type := SortedMap String (SortedMap String Handle)

/-- A registered exporter. -/
structure ExporterSession where
  name : String
  version : String
  tree : ResourceTree
  deriving DecidableEq, Repr

namespace ExporterSession

/-- The published handle under a group and a name. -/
def find? (s : ExporterSession) (group name : String) : Option Handle :=
  (s.tree.get? group).bind (fun named => named.get? name)

/-- The published handles by group and name. -/
def handles (s : ExporterSession) : List Handle := s.tree.values.flatMap SortedMap.values

def file (s : ExporterSession) (group name : String) (h : Handle) : ExporterSession :=
  { s with
    tree := s.tree.insert group (((s.tree.get? group).getD SortedMap.empty).insert name h) }

/-- Removes a handle, and its group if that is empty now. -/
def remove (s : ExporterSession) (group name : String) : ExporterSession :=
  let named := ((s.tree.get? group).getD SortedMap.empty).erase name
  { s with tree := if named.isEmpty then s.tree.erase group else s.tree.insert group named }

end ExporterSession

/-- Why an exporter is not registered. -/
inductive StartupError where
  | emptyName
  | duplicate (name : String)
  deriving DecidableEq, Repr

namespace StartupError

def message : StartupError → String
  | emptyName => "exporter name must not be empty"
  | duplicate name => "exporter " ++ name ++ " is already connected"

end StartupError

/-- What an exporter is sent. -/
inductive Delivery where
  | hello (version : String)
  | command (c : Command)
  | refusal (cause : StartupError)
  | closed
  deriving DecidableEq, Repr

/-- Whether messages pass: both ways, only to the exporter, or not at all. -/
inductive LinkPhase where
  | connected
  | ending
  | closed
  deriving DecidableEq, Repr

/-- A pair of message streams. -/
structure Link where
  phase : LinkPhase
  /-- Whether the greeting has been delivered. -/
  greeted : Bool
  channel : Channel
  refusal : Option StartupError
  session : Option ExporterSession
  deriving DecidableEq, Repr

namespace Link

/-- A link on which nothing has been sent. -/
def new : Link := ⟨.connected, false, Channel.empty, none, none⟩

/-- The version that the greeting announces. -/
def version : String := "0.1.0"

/-- Whether the exporter has something to receive. -/
def hasDelivery (l : Link) : Bool :=
  l.phase != .closed &&
    (!l.greeted || !l.channel.queue.isEmpty || l.refusal.isSome || l.phase == .ending)

/-- Takes the next delivery: the greeting, the queued commands, a refusal, and the end. A
command that has been given up is passed over. -/
def deliver (l : Link) : Option Delivery × Link :=
  if l.phase = .closed then (none, l)
  else if !l.greeted then (some (.hello version), { l with greeted := true })
  else if !l.channel.queue.isEmpty then
    let (command, channel) := l.channel.deliver
    (command.map .command, { l with channel := channel })
  else
    match l.refusal with
    | some cause => (some (.refusal cause), { l with refusal := none })
    | none => if l.phase = .ending then (some .closed, { l with phase := .closed }) else (none, l)

/-- The exporter's stream ends. -/
def finish (l : Link) : Link :=
  { l with phase := .ending, channel := l.channel.endReplies, session := none }

/-- The exporter is gone. -/
def close (l : Link) : Link :=
  { l with
    phase := .closed, channel := l.channel.endReplies.discardQueue, refusal := none
    session := none }

end Link

end BoardFarm
