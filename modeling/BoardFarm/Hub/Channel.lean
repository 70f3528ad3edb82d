import BoardFarm.Exporter.Message

/-!
# Command channels

A channel carries commands to an exporter and brings each answer to the caller that waits for
it. Answers carry no name: they belong to the delivered commands in the order of delivery. A
caller may give up; then its command is not delivered any more, or, if it has been, its answer
is passed over.

* `Channel.submit`, `Channel.deliver`, `Channel.respond`, `Channel.abandon`: the course of a
  command.
* `Channel.endReplies`, `Channel.discardQueue`: the end of either direction.
-/

namespace BoardFarm

/-- Why a command has not been carried out. -/
inductive CommandError where
  | expired
  | disconnected
  | unknown
  | rejected (reason : String)
  deriving DecidableEq, Repr

namespace CommandError

def message : CommandError → String
  | expired => "exporter did not answer in time"
  | disconnected => "exporter disconnected"
  | unknown => "exporter is not connected"
  | rejected reason => "exporter rejected the command: " ++ reason

end CommandError

/-- What the caller of a command learns. -/
inductive Outcome where
  | done
  | failed (cause : CommandError)
  deriving DecidableEq, Repr

namespace Outcome

def ofAnswer (a : Answer) : Outcome :=
  if a.success then .done else .failed (.rejected (a.reason.getD "no reason given"))

end Outcome

/-- Commands on their way to an exporter. Each command has a number. -/
structure Channel where
  /-- The number of the next command. -/
  next : Nat
  /-- Commands that wait for delivery, oldest first. -/
  queue : List (Nat × Command)
  /-- Delivered commands that wait for an answer, oldest first. -/
  pending : List Nat
  /-- Commands whose callers wait. -/
  waiting : List Nat
  /-- What callers have learnt, latest first. -/
  outcomes : List (Nat × Outcome)
  deriving DecidableEq, Repr

namespace Channel

def empty : Channel := ⟨0, [], [], [], []⟩

/-- Whether the caller of a command waits. -/
def waits (c : Channel) (id : Nat) : Bool := c.waiting.contains id

/-- What the caller of a command has learnt. -/
def outcome? (c : Channel) (id : Nat) : Option Outcome :=
  (c.outcomes.find? (fun e => e.1 == id)).map Prod.snd

/-- A further command, whose caller waits; its number is the old `next`. -/
def submit (c : Channel) (command : Command) : Channel :=
  { c with
    next := c.next + 1
    queue := c.queue ++ [(c.next, command)]
    waiting := c.next :: c.waiting }

/-- The caller of a command does not wait any more. -/
def abandon (c : Channel) (id : Nat) : Channel :=
  { c with waiting := c.waiting.filter (fun w => w != id) }

/-- Tells the caller of a command its outcome, if the caller waits. -/
def resolve (c : Channel) (id : Nat) (o : Outcome) : Channel :=
  if c.waits id then { c.abandon id with outcomes := (id, o) :: c.outcomes } else c

/-- Takes the oldest command out of the queue. It is delivered if its caller waits. -/
def deliver (c : Channel) : Option Command × Channel :=
  match c.queue with
  | [] => (none, c)
  | (id, command) :: rest =>
    if c.waits id then (some command, { c with queue := rest, pending := c.pending ++ [id] })
    else (none, { c with queue := rest })

/-- Gives an answer to the oldest delivered command; without one it is passed over. -/
def respond (c : Channel) (a : Answer) : Channel :=
  match c.pending with
  | [] => c
  | id :: rest => { c with pending := rest }.resolve id (.ofAnswer a)

/-- Tells the callers of some commands that the exporter is gone. -/
def disconnect (c : Channel) (ids : List Nat) : Channel :=
  ids.foldl (fun c id => c.resolve id (.failed .disconnected)) c

/-- No more answers arrive. -/
def endReplies (c : Channel) : Channel := { c with pending := [] }.disconnect c.pending

def discardQueue (c : Channel) : Channel :=
  { c with queue := [] }.disconnect (c.queue.map Prod.fst)

end Channel

end BoardFarm
