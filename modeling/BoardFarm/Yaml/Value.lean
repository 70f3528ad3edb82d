import BoardFarm.Data
import BoardFarm.Yaml.Node

/-!
# Values of YAML nodes

A node is read as the type that is asked for: a text is the text of any scalar, while an
untyped value is a plain scalar's null, truth value or number if its text is one. Collections
nest at most 128 deep, and aliases are followed at most a hundred times as often as the
document has events.

* `Scalar.untyped`: the value of a plain scalar.
* `Document.decode`: the value of a document.
-/

namespace BoardFarm.Yaml

/-! ## Plain scalars -/

namespace Scalar

/-- Whether a text is a way to write null. -/
def isNull (s : String) : Bool := ["null", "Null", "NULL", "~"].contains s

/-- The truth value that a text denotes. -/
def bool? (s : String) : Option Bool :=
  if ["true", "True", "TRUE"].contains s then some true
  else if ["false", "False", "FALSE"].contains s then some false
  else none

/-- Whether a text has a sign at its start. -/
def isSigned : List Char → Bool
  | '+' :: _ => true
  | '-' :: _ => true
  | _ => false

/-- The text behind a plus sign. -/
def dropPlus : List Char → List Char
  | '+' :: rest => rest
  | cs => cs

/-- Digits behind superfluous zeros, which are a text and no number. -/
def isZeroLed (cs : List Char) : Bool :=
  let digits := if isSigned cs then cs.drop 1 else cs
  match digits with
  | '0' :: c :: rest => (c :: rest).all Digits.isDigit
  | _ => false

/-- The number behind the mark of a base. -/
def based? : List Char → Option Nat
  | '0' :: 'x' :: digits => Digits.value 16 digits
  | '0' :: 'o' :: digits => Digits.value 8 digits
  | '0' :: 'b' :: digits => Digits.value 2 digits
  | _ => none

/-- The integer that a text denotes. -/
def int? (cs : List Char) : Option Int :=
  match cs with
  | '-' :: rest =>
    match based? rest with
    | some n => some (-(n : Int))
    | none => if isZeroLed cs then none else (Digits.value 10 rest).map (fun n => -(n : Int))
  | _ =>
    match based? (dropPlus cs) with
    | some n => some n
    | none =>
      if isZeroLed cs then none else (Digits.value 10 (dropPlus cs)).map (fun n => (n : Int))

/-- Whether an integer lies in the range of signed or unsigned numbers of some width. -/
def fits (width : Nat) (n : Int) : Bool :=
  -((1 <<< (width - 1) : Nat) : Int) ≤ n && n < (1 <<< width : Nat)

/-- The positive not-a-number. -/
def notANumber : Double := Double.ofCode false (Double.infinityCode + 1 <<< 51)

/-- The floating point number that a text denotes. -/
def float? (s : String) : Option Double :=
  let body := dropPlus s.toList
  if s.toList != body && isSigned body then none
  else if [".inf", ".Inf", ".INF"].contains (String.ofList body) then
    some (Double.ofCode false Double.infinityCode)
  else if ["-.inf", "-.Inf", "-.INF"].contains s then
    some (Double.ofCode true Double.infinityCode)
  else if [".nan", ".NaN", ".NAN"].contains s then some notANumber
  else (Double.parse? body).filter (·.isFinite)

/-- The integer that a text denotes if 128 bits hold it. -/
def wide? (s : String) : Option Int := (int? s.toList).filter (fits 128)

/-- The value of a plain scalar. An integer that takes more than 64 bits, but not more than
128, has none. -/
def untyped (s : String) : Option Data :=
  if s.isEmpty || isNull s then some .null
  else
    match bool? s with
    | some b => some (.bool b)
    | none =>
      match wide? s with
      | some n => if fits 64 n then some (.int n) else none
      | none =>
        if isZeroLed s.toList then some (.text s)
        else
          match float? s with
          | some x => some (.float x)
          | none => some (.text s)

/-- The value of a scalar with a tag of the core schema; any other tag makes a text. -/
def tagged (tag : String) (s : String) : Option Data :=
  if tag == "tag:yaml.org,2002:bool" then (bool? s).map .bool
  else if tag == "tag:yaml.org,2002:int" then
    match wide? s with
    | some n => if fits 64 n then some (.int n) else none
    | none => none
  else if tag == "tag:yaml.org,2002:float" then (float? s).map .float
  else if tag == "tag:yaml.org,2002:null" then (if isNull s then some .null else none)
  else some (.text s)

/-- Whether a tag is one of the application, which untyped values may not have. -/
def isCustom (tag : Option String) : Bool :=
  match tag with
  | none => false
  | some t => t.startsWith "!"

def value (tag : Option String) (isPlain : Bool) (s : String) : Option Data :=
  if isCustom tag then none
  else
    match tag with
    | some t => tagged t s
    | none => if isPlain then untyped s else some (.text s)

/-- Whether a scalar stands for an absent value; there is no answer for a tag that promises
null before another text. -/
def isAbsent (tag : Option String) (isPlain : Bool) (s : String) : Option Bool :=
  if !isPlain then some false
  else
    match tag with
    | none => some (s.isEmpty || isNull s)
    | some t =>
      if t == "tag:yaml.org,2002:null" then (if isNull s then some true else none)
      else some s.isEmpty

end Scalar

/-! ## Typed reading -/

/-- A reader of values: it counts the aliases that it follows. -/
abbrev Decode (α : Type) : Type := StateT Nat Option α

/-- The depth to which collections may nest. -/
def maxDepth : Nat := 128

namespace Document

variable (d : Document)

/-- The node for which a node stands. -/
def follow (node : Node) : Decode Node :=
  match node with
  | .reference number => do
    let followed ← get
    if d.size * 100 < followed + 1 then failure
    set (followed + 1)
    match d.anchored.get? number with
    | some target => return target
    | none => failure
  | node => return node

def text (node : Node) : Decode String := do
  match ← d.follow node with
  | .scalar _ _ s => return s
  | _ => failure

/-- The items of a sequence; an empty plain scalar has none. -/
def items (node : Node) : Decode (List Node) := do
  match ← d.follow node with
  | .sequence _ nodes => return nodes
  | .scalar _ true "" => return []
  | _ => failure

/-- The entries of a mapping; an empty plain scalar has none. -/
def entries (node : Node) : Decode (List (Node × Node)) := do
  match ← d.follow node with
  | .mapping _ nodes => return nodes
  | .scalar _ true "" => return []
  | _ => failure

/-- A value that may be absent. -/
def optional {α : Type} (read : Node → Decode α) (node : Node) : Decode (Option α) := do
  let node ← d.follow node
  match node with
  | .scalar tag isPlain s =>
    match Scalar.isAbsent tag isPlain s with
    | none => failure
    | some true => return none
    | some false => return some (← read node)
  | node => return some (← read node)

def namedEntries {α : Type} (read : String → Node → Decode α) (node : Node) :
    Decode (List (String × α)) := do
  let nodes ← d.entries node
  nodes.mapM (fun e => do
    let key ← d.text e.1
    return (key, ← read key e.2))

/-- An untyped value. The keys of a mapping are distinct. -/
def untyped : (depth : Nat) → Node → Decode Data
  | 0, _ => failure
  | depth + 1, node => do
    match ← d.follow node with
    | .scalar tag isPlain s => Scalar.value tag isPlain s
    | .sequence tag nodes =>
      if depth = 0 || Scalar.isCustom tag then failure
      return .sequence (← nodes.mapM (untyped depth))
    | .mapping tag nodes =>
      if depth = 0 || Scalar.isCustom tag then failure
      let entries ← nodes.mapM (fun e => do
        let key ← untyped depth e.1
        return (key, ← untyped depth e.2))
      if distinct (entries.map Prod.fst) then return .mapping entries else failure
    | .reference _ => failure
where
  /-- Whether no two values of a list are the same. -/
  distinct : List Data → Bool
    | [] => true
    | a :: rest => !rest.any (fun b => a.same b) && distinct rest

/-- The value of a document that may have no root. -/
def decode {α : Type} (read : Node → Decode α) : Option (Option α) :=
  match d.root with
  | none => some none
  | some root => ((d.optional read root).run 0).map Prod.fst

end Document

end BoardFarm.Yaml
