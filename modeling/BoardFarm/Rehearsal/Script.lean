import BoardFarm.Exporter
import BoardFarm.Hub.Client
import BoardFarm.SortedMap

/-!
# Scripts

In a rehearsal the peers of the hub act by scripts. A script says how an exporter reacts to
each command: by the next reply for the resource that the command names, by the next reply for
any resource, or by a reply that is used again and again. Where it says nothing, the exporter
answers by itself.

* `Script.take`: the reply to a command.
* `Move`: what a peer does.
-/

namespace BoardFarm.Rehearsal

/-- What a peer does with its streams. -/
inductive Act where
  /-- Ends what the peer sends. -/
  | closeIn
  /-- Stops receiving for good. -/
  | closeOut
  /-- Breaks what the peer sends off. -/
  | fail
  /-- Leaves what arrives unread. -/
  | pause
  /-- Reads what arrives again. -/
  | resume
  deriving DecidableEq, Repr

/-- A message or an act of a peer. -/
inductive Move (μ : Type) where
  | say (message : μ)
  | act (a : Act)
  deriving DecidableEq, Repr

/-- What an exporter does in one go. -/
abbrev ExporterTurn : Type := List (Move ExporterMessage)

/-- What a client does in one go. -/
abbrev ClientTurn : Type := List (Move ClientRequest)

namespace Move

variable {μ : Type}

/-- Whether a peer reads what arrives after its turn; pausing takes effect at the end. -/
def receives (before : Bool) (turn : List (Move μ)) : Bool :=
  turn.foldl (fun receives move =>
    match move with
    | .act .pause => false
    | .act .resume => true
    | _ => receives) before

/-- Whether a peer stops receiving for good at the end of its turn. -/
def leaves [DecidableEq μ] (turn : List (Move μ)) : Bool := turn.contains (.act .closeOut)

end Move

/-- The name under which replies for any resource are filed. -/
def anyResource : String := "*"

/-- How an exporter reacts to commands. -/
structure Script where
  /-- Replies by the name of the resource, each used once. -/
  replies : SortedMap String (List ExporterTurn)
  /-- The reply where no other one is left. -/
  fallback : Option ExporterTurn
  deriving DecidableEq, Repr

namespace Script

def empty : Script := ⟨SortedMap.empty, none⟩

def add (s : Script) (resource : String) (turns : List ExporterTurn) : Script :=
  { s with replies := s.replies.insert resource ((s.replies.get? resource).getD [] ++ turns) }

/-- The next reply that is filed under a name. -/
def takeUnder (s : Script) (name : String) : Option (ExporterTurn × Script) :=
  match s.replies.get? name with
  | some (turn :: rest) => some (turn, { s with replies := s.replies.insert name rest })
  | _ => none

/-- The reply to a command for a resource, and the script without it. -/
def take (s : Script) (resource : String) : Option (ExporterTurn × Script) :=
  match s.takeUnder resource with
  | some reply => some reply
  | none =>
    match s.takeUnder anyResource with
    | some reply => some reply
    | none => s.fallback.map (fun turn => (turn, s))

end Script

end BoardFarm.Rehearsal
