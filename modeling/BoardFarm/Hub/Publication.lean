import BoardFarm.Hub

/-!
# Publication of resources

The reports of an exporter keep its tree up to date. A report of the class that is filed
updates the record of the handle. A report of another class replaces the handle by a new one,
and a report without a class deletes it; a handle that was held is an orphan from then on.

* `Hub.report`: what a report does.
* `Hub.withdraw`: the end of a published resource.
* `Hub.disconnect`: the end of an exporter's link.
-/

namespace BoardFarm.Hub

/-- A handle that loses its place in the tree is an orphan if its resource is held. -/
def orphanIfHeld (hub : Hub) (h : Handle) : Hub :=
  hub.modifyRecord h (fun r => { r with orphaned := r.orphaned || r.acquired.isSome })

def queue (hub : Hub) (id : Nat) (f : FollowUp) : Hub :=
  { hub with followUps := hub.followUps ++ [(id, f)] }

/-- Publishes a new handle under a group and a name. -/
def publishNew (hub : Hub) (id : Nat) (s : ExporterSession) (group name : String)
    (r : ResourceRecord) : Hub :=
  let h : Handle := ⟨hub.records.size, ⟨s.name, group, r.cls, name⟩⟩
  let hub := { hub with records := hub.records.insert h.serial r }
  let hub := hub.modifySession id (fun s => s.file group name h)
  ((hub.publishResource h).markDirty).queue id (.added h)

/-- Withdraws the resource under a group and a name. -/
def withdraw (hub : Hub) (id : Nat) (s : ExporterSession) (group name : String) : Hub :=
  match s.find? group name with
  | none => hub
  | some h =>
    let hub := hub.orphanIfHeld h
    let hub := hub.modifySession id (fun s => s.remove group name)
    ((hub.tellResources (.deletedResource h.path)).markDirty).queue id (.removed h)

/-- Takes a record under a group and a name over. -/
def publish (hub : Hub) (id : Nat) (s : ExporterSession) (group name : String)
    (r : ResourceRecord) : Hub :=
  match s.find? group name with
  | none => hub.publishNew id s group name r
  | some h =>
    if h.path.cls == r.cls then
      (hub.modifyRecord h (fun old => old.merge r)).publishResource h
    else (hub.orphanIfHeld h).publishNew id s group name r

/-- Takes a report of a registered exporter over; without an address it is passed over. -/
def report (hub : Hub) (id : Nat) (s : ExporterSession) (r : ResourceReport) : Hub :=
  match r.address with
  | none => hub
  | some (group, name) =>
    if r.cls.isEmpty then hub.withdraw id s group name
    else hub.publish id s group name (ResourceRecord.ofReport r)

/-- Registers an exporter unless its name is empty or in use; otherwise its stream ends. -/
def register (hub : Hub) (id : Nat) (name version : String) : Hub :=
  let refuse := fun (cause : StartupError) =>
    hub.modifyLink id (fun l => { l.finish with refusal := some cause })
  if name.isEmpty then refuse .emptyName
  else if (hub.linkOf name).isSome then refuse (.duplicate name)
  else hub.modifyLink id (fun l => { l with session := some ⟨name, version, SortedMap.empty⟩ })

/-- Takes a message of an exporter over. A startup message counts only once, and reports only
behind it. -/
def hearExporter (hub : Hub) (id : Nat) (m : ExporterMessage) : Hub :=
  match hub.link id with
  | none => hub
  | some l =>
    if l.phase ≠ .connected then hub
    else
      match m, l.session with
      | .startup _ _, some _ => hub
      | .startup name version, none => hub.register id name version
      | .resource r, some s => hub.report id s r
      | .resource _, none => hub
      | .response a, _ => hub.modifyLink id (fun l => { l with channel := l.channel.respond a })
      | .blank, _ => hub

/-- Withdraws all resources of a link's exporter. -/
def withdrawAll (hub : Hub) (id : Nat) : Hub :=
  match hub.session id with
  | none => hub
  | some s =>
    (s.handles.foldl (fun hub h => hub.withdraw id s h.path.group h.path.name) hub).markDirty

/-- Ends the stream of an exporter in some way; its resources are withdrawn first. -/
def disconnect (hub : Hub) (id : Nat) (finish : Link → Link) : Hub :=
  match hub.link id with
  | none => hub
  | some l =>
    if l.phase = .connected then (hub.withdrawAll id).modifyLink id finish
    else hub.modifyLink id finish

end BoardFarm.Hub
