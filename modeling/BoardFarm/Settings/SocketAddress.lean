import BoardFarm.Number.Digits

/-!
# Socket addresses

An address is four octets or eight groups with a port. Octets are written without leading
zeros. Groups are hexadecimal; one run of zero groups may be written `::`, and the last two
groups may be written as octets. An address of groups stands in brackets and may name a zone.

* `SocketAddress.parse?`, `SocketAddress.text`: the reader and the written form.
-/

namespace BoardFarm

/-- An address with a port. -/
inductive SocketAddress where
  | octets (parts : List Nat) (port : Nat)
  | groups (parts : List Nat) (zone : Nat) (port : Nat)
  deriving DecidableEq, Repr

namespace SocketAddress

/-- Reads a digit run of a base, up to a number of digits and below a bound. -/
def number? (base : Nat) (maxDigits : Option Nat) (zeroPrefix : Bool) (bound : Nat)
    (cs : List Char) : Option (Nat × List Char) :=
  let ds := cs.takeWhile (fun c => (Digits.digit? base c).isSome)
  match Digits.value base ds with
  | none => none
  | some n =>
    let tooLong := match maxDigits with
      | none => false
      | some m => m < ds.length
    if tooLong || (!zeroPrefix && ds.head? == some '0' && 1 < ds.length) || bound ≤ n then none
    else some (n, cs.drop ds.length)

def char? (c : Char) : List Char → Option (List Char)
  | d :: rest => if d = c then some rest else none
  | [] => none

/-- Passes over a separator in front of every element but the first. -/
def separator? (c : Char) (index : Nat) (cs : List Char) : Option (List Char) :=
  if index = 0 then some cs else char? c cs

/-- Reads octets with points between them. -/
def octets? : (count index : Nat) → List Char → Option (List Nat × List Char)
  | 0, _, cs => some ([], cs)
  | count + 1, index, cs => do
    let cs ← separator? '.' index cs
    let (n, cs) ← number? 10 (some 3) false 256 cs
    let (more, cs) ← octets? count (index + 1) cs
    return (n :: more, cs)

/-- Two groups made of four octets. -/
def groupsOfOctets : List Nat → List Nat
  | [a, b, c, d] => [a * 256 + b, c * 256 + d]
  | _ => []

/-- Reads up to `room` groups with colons between them; the flag tells that the last two
came from octets. -/
def groupRun : (room index : Nat) → List Char → List Nat × Bool × List Char
  | 0, _, cs => ([], false, cs)
  | room + 1, index, cs =>
    let trailing : Option (List Nat × List Char) :=
      if 0 < room then
        match separator? ':' index cs with
        | none => none
        | some cs => octets? 4 0 cs
      else none
    match trailing with
    | some (os, cs) => (groupsOfOctets os, true, cs)
    | none =>
      match (separator? ':' index cs).bind (number? 16 (some 4) true 65536) with
      | none => ([], false, cs)
      | some (g, rest) =>
        let (more, fromOctets, rest) := groupRun room (index + 1) rest
        (g :: more, fromOctets, rest)

/-- Reads eight groups, or fewer around one `::`. -/
def groups? (cs : List Char) : Option (List Nat × List Char) :=
  let (front, fromOctets, cs) := groupRun 8 0 cs
  if front.length = 8 then some (front, cs)
  else if fromOctets then none
  else do
    let cs ← char? ':' cs
    let cs ← char? ':' cs
    let (back, _, cs) := groupRun (7 - front.length) 0 cs
    return (front ++ List.replicate (8 - front.length - back.length) 0 ++ back, cs)

/-- Reads a colon and a port. -/
def port? (cs : List Char) : Option (Nat × List Char) := do
  let cs ← char? ':' cs
  number? 10 none true 65536 cs

def octetAddress? (cs : List Char) : Option (SocketAddress × List Char) := do
  let (os, cs) ← octets? 4 0 cs
  let (p, cs) ← port? cs
  return (octets os p, cs)

/-- Reads a percent sign and the number of a zone. -/
def zone? (cs : List Char) : Option (Nat × List Char) := do
  let cs ← char? '%' cs
  number? 10 none true UInt32.size cs

/-- Reads groups in brackets, with an optional zone, and a port. -/
def groupAddress? (cs : List Char) : Option (SocketAddress × List Char) := do
  let cs ← char? '[' cs
  let (gs, cs) ← groups? cs
  let (zone, cs) := (zone? cs).getD (0, cs)
  let cs ← char? ']' cs
  let (p, cs) ← port? cs
  return (groups gs zone p, cs)

/-- Reads an address that takes up the whole text. -/
def parse? (s : String) : Option SocketAddress :=
  match octetAddress? s.toList with
  | some (a, []) => some a
  | _ =>
    match groupAddress? s.toList with
    | some (a, []) => some a
    | _ => none

/-- A number in lower case hexadecimal digits. -/
def hex (n : Nat) : String := String.ofList (Nat.toDigits 16 n)

/-- Where the first of the longest runs of zero groups starts, and its length. -/
def longestZeros : (index : Nat) → (current best : Nat × Nat) → List Nat → Nat × Nat
  | _, _, best, [] => best
  | i, current, best, g :: rest =>
    if g = 0 then
      let current := if current.2 = 0 then (i, 1) else (current.1, current.2 + 1)
      longestZeros (i + 1) current (if best.2 < current.2 then current else best) rest
    else longestZeros (i + 1) (0, 0) best rest

def octetsText (os : List Nat) : String :=
  String.intercalate "." (os.map (fun n => String.ofList (Digits.decimal n)))

/-- Groups with colons between them; the longest run of at least two zero groups becomes `::`,
and the last groups of a mapped address are written as octets. -/
def groupsText (gs : List Nat) : String :=
  let plain := fun (l : List Nat) => String.intercalate ":" (l.map hex)
  match gs with
  | [0, 0, 0, 0, 0, 65535, a, b] =>
    "::ffff:" ++ octetsText [a / 256, a % 256, b / 256, b % 256]
  | _ =>
    let (start, length) := longestZeros 0 (0, 0) (0, 0) gs
    if 1 < length then plain (gs.take start) ++ "::" ++ plain (gs.drop (start + length))
    else plain gs

def text : SocketAddress → String
  | octets os p => octetsText os ++ ":" ++ String.ofList (Digits.decimal p)
  | groups gs zone p =>
    let zoneText := if zone = 0 then "" else "%" ++ String.ofList (Digits.decimal zone)
    "[" ++ groupsText gs ++ zoneText ++ "]:" ++ String.ofList (Digits.decimal p)

end SocketAddress

end BoardFarm
