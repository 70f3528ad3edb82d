import BoardFarm.Number.Digits
import BoardFarm.Yaml.Cursor

/-!
# Node properties and directives

A node may have an anchor and a tag. A tag is a handle with a suffix; it is written out in
full between angle brackets. Directives at the start of a line name the version of the format
or define a handle.

* `Cursor.readAnchor`, `Cursor.readTag`, `Cursor.readDirective`.
-/

namespace BoardFarm.Yaml

/-- A tag as it is written: the tag is the suffix itself where the handle is empty. -/
structure TagName where
  handle : List Char
  suffix : List Char
  deriving DecidableEq, Repr

/-- A directive. -/
inductive Directive where
  | version (major minor : Nat)
  | handle (handle meaning : List Char)
  deriving DecidableEq, Repr

namespace Cursor

/-- Reads the name of an anchor. -/
def readAnchor (c : Cursor) : Option (List Char × Cursor) :=
  let name := c.rest.takeWhile isWord
  let c := c.skip name.length
  let mayFollow := fun (d : Char) =>
    isSpace d || ['?', ':', ',', ']', '}', '%', '@', '`'].contains d
  if name.isEmpty || !endsAt mayFollow c.rest then none else some (name, c)

/-! ## Tags -/

/-- A character that may stand for itself in a tag. -/
def isTagChar (full : Bool) (c : Char) : Bool :=
  isWord c || [';', '/', '?', ':', '@', '&', '=', '+', '$', '.', '!', '~', '*', '\'', '(',
    ')'].contains c || (full && [',', '[', ']'].contains c)

/-- An octet written as a percent sign and two hexadecimal digits. -/
def octet : List Char → Option Nat
  | '%' :: a :: b :: _ => Digits.value 16 [a, b]
  | _ => none

/-- The number of octets of a character by its first one, and the value of that octet. -/
def leadOctet (n : Nat) : Option (Nat × Nat) :=
  if n < 0x80 then some (1, n)
  else if 0xC0 ≤ n ∧ n < 0xE0 then some (2, n % 0x20)
  else if 0xE0 ≤ n ∧ n < 0xF0 then some (3, n % 0x10)
  else if 0xF0 ≤ n ∧ n < 0xF8 then some (4, n % 0x08)
  else none

/-- Adds further octets to a value. -/
def furtherOctets : (count : Nat) → List Char → Nat → Option Nat
  | 0, _, value => some value
  | count + 1, cs, value =>
    match octet cs with
    | none => none
    | some n =>
      if n / 0x40 = 2 then furtherOctets count (cs.drop 3) (value * 0x40 + n % 0x40) else none

/-- The character that escaped octets stand for, and the number of the octets. -/
def escapedChar (cs : List Char) : Option (Char × Nat) := do
  let n ← octet cs
  let (count, value) ← leadOctet n
  let value ← furtherOctets (count - 1) (cs.drop 3) value
  return (if value.isValidChar then Char.ofNat value else '\ufffd', count)

/-- Reads the longest text of tag characters and escaped octets. -/
def readTagText (full : Bool) :
    (fuel : Nat) → Cursor → List Char → Option (List Char × Cursor)
  | 0, c, read => some (read, c)
  | fuel + 1, c, read =>
    match c.rest with
    | '%' :: _ => do
      let (d, count) ← escapedChar c.rest
      readTagText full fuel (c.skip (3 * count)) (read ++ [d])
    | d :: _ =>
      if isTagChar full d then readTagText full fuel (c.skip 1) (read ++ [d]) else some (read, c)
    | [] => some (read, c)

/-- Reads a text of tag characters that may not be empty. -/
def readSuffix (c : Cursor) (full : Bool) : Option (List Char × Cursor) := do
  let (text, c) ← c.readTagText full c.rest.length []
  if text.isEmpty then none else return (text, c)

/-- Reads an exclamation mark, a word and, if it is there, a second exclamation mark. -/
def readHandle (c : Cursor) : Option (List Char × Cursor) :=
  match c.rest with
  | '!' :: rest =>
    let handle := '!' :: rest.takeWhile isWord
    let c := c.skip handle.length
    if c.sees ['!'] then some (handle ++ ['!'], c.skip 1) else some (handle, c)
  | _ => none

/-- Whether a handle ends with a second exclamation mark. -/
def isClosedHandle (handle : List Char) : Bool := 1 < handle.length && handle.getLast? == some '!'

/-- Reads the two parts of a tag. -/
def readTagName (c : Cursor) : Option (TagName × Cursor) :=
  match c.rest with
  | _ :: '<' :: _ => do
    let (suffix, c) ← (c.skip 2).readSuffix true
    if c.sees ['>'] then return (⟨[], suffix⟩, c.skip 1) else none
  | _ => do
    let (handle, c) ← c.readHandle
    if isClosedHandle handle then
      let (suffix, c) ← c.readSuffix false
      return (⟨handle, suffix⟩, c)
    else
      let (more, c) ← c.readTagText false c.rest.length []
      let suffix := handle.drop 1 ++ more
      return (if suffix.isEmpty then ⟨[], ['!']⟩ else ⟨['!'], suffix⟩, c)

/-- Reads a tag, which ends before a space or, within brackets, before a comma. -/
def readTag (c : Cursor) (inFlow : Bool) : Option (TagName × Cursor) := do
  let (tag, c) ← c.readTagName
  if endsAt isSpace c.rest || (inFlow && c.sees [',']) then return (tag, c) else none

/-! ## Directives -/

/-- Reads a number of at most nine digits. -/
def readVersionNumber (c : Cursor) : Option (Nat × Cursor) :=
  let digits := c.rest.takeWhile Digits.isDigit
  if 9 < digits.length then none
  else (Digits.value 10 digits).map (fun n => (n, c.skip digits.length))

/-- Reads the two numbers of a version. -/
def readVersion (c : Cursor) : Option (Directive × Cursor) := do
  let (major, c) ← (c.skipWhile isBlank).readVersionNumber
  if !c.sees ['.'] then none
  let (minor, c) ← (c.skip 1).readVersionNumber
  return (.version major minor, c)

/-- Reads a handle and its meaning. -/
def readHandleMeaning (c : Cursor) : Option (Directive × Cursor) := do
  let (handle, c) ← (c.skipWhile isBlank).readHandle
  if handle ≠ ['!'] && !isClosedHandle handle then none
  if !startsWith isBlank c.rest then none
  let (meaning, c) ← (c.skipWhile isBlank).readSuffix true
  if !endsAt isSpace c.rest then none
  return (.handle handle meaning, c)

/-- Reads a directive behind its percent sign, up to the next line. -/
def readDirective (c : Cursor) : Option (Directive × Cursor) := do
  let name := c.rest.takeWhile isWord
  let c := c.skip name.length
  if !endsAt isSpace c.rest then none
  let (directive, c) ←
    if name == "YAML".toList then c.readVersion
    else if name == "TAG".toList then c.readHandleMeaning
    else none
  let c ← c.skipToNextLine
  return (directive, c)

end Cursor

end BoardFarm.Yaml
