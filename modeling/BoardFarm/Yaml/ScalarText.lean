import BoardFarm.Number.Digits
import BoardFarm.Yaml.Cursor

/-!
# The text of YAML scalars

A scalar stands plain, between quotes, or as an indented block of lines. In the first two
forms a line break within the text counts as a space, and further breaks stand for
themselves; so it is in a folded block, but not in a literal one.

* `Cursor.readPlain`, `Cursor.readQuoted`, `Cursor.readBlock`: the text of a scalar and the
  cursor behind it.

Each loop passes at least one character in a round, so the number of unread characters bounds
its rounds.
-/

namespace BoardFarm.Yaml

/-! ## Gaps between words -/

/-- Blanks and line breaks between two words. -/
structure Gap where
  /-- The blanks before the first line break, last one first. -/
  blanks : List Char
  /-- Whether a line has ended. -/
  broken : Bool
  first : List Char
  further : List Char
  deriving Repr

namespace Gap

def empty : Gap := ⟨[], false, [], []⟩

/-- The text for which a gap stands. -/
def text (g : Gap) : List Char :=
  if !g.broken then g.blanks.reverse
  else if g.first == ['\n'] then (if g.further.isEmpty then [' '] else g.further)
  else g.first ++ g.further

/-- The gap with a further blank; after a line break blanks do not count. -/
def addBlank (g : Gap) (c : Char) : Gap :=
  if g.broken then g else { g with blanks := c :: g.blanks }

/-- The gap with a further line break. -/
def addBreak (g : Gap) (b : List Char) : Gap :=
  if g.broken then { g with further := g.further ++ b }
  else { g with broken := true, blanks := [], first := b }

end Gap

namespace Cursor

/-- Reads on in a gap. After a line break no tab may stand left of column `indent`. -/
def readGapFrom (indent : Int) : (fuel : Nat) → Cursor → Gap → Option (Gap × Cursor)
  | 0, c, g => some (g, c)
  | fuel + 1, c, g =>
    match c.rest with
    | [] => some (g, c)
    | d :: _ =>
      if isBreak d then readGapFrom indent fuel c.skipLine (g.addBreak c.lineBreak)
      else if d == '\t' && g.broken && (c.column : Int) < indent then none
      else if isBlank d then readGapFrom indent fuel (c.skip 1) (g.addBlank d)
      else some (g, c)

/-- Reads a gap that may have begun with an escaped line break. -/
def readGap (c : Cursor) (indent : Int) (broken : Bool) : Option (Gap × Cursor) :=
  c.readGapFrom indent c.rest.length { Gap.empty with broken := broken }

/-! ## Plain scalars -/

/-- A bracket, a brace or a comma. -/
def isFlowMark (c : Char) : Bool :=
  c == ',' || c == '[' || c == ']' || c == '{' || c == '}'

/-- The word of a plain scalar at the start of a text. A colon before a space ends it, and
within brackets a flow mark does; there no flow mark or question mark may follow a colon. -/
def plainWord (inFlow : Bool) : List Char → Option (List Char)
  | [] => some []
  | c :: rest =>
    if isSpace c then some []
    else if inFlow && c == ':' && startsWith (fun d => isFlowMark d || d == '?') rest then none
    else if c == ':' && endsAt isSpace rest then some []
    else if inFlow && isFlowMark c then some []
    else (plainWord inFlow rest).map (c :: ·)

/-- Reads on in a plain scalar behind a gap. The answer tells whether the scalar ends with a
line break. -/
def readPlainFrom (inFlow : Bool) (indent : Int) :
    (fuel : Nat) → Cursor → Gap → List Char → Option (List Char × Bool × Cursor)
  | 0, _, _, _ => none
  | fuel + 1, c, g, read =>
    if c.atMarker || startsWith (· == '#') c.rest then some (read, g.broken, c)
    else do
      let word ← plainWord inFlow c.rest
      let c := c.skip word.length
      let (g, read) := if word.isEmpty then (g, read) else (Gap.empty, read ++ g.text ++ word)
      if !startsWith isSpace c.rest then return (read, g.broken, c)
      let (g, c) ← c.readGap indent false
      if !inFlow && (c.column : Int) < indent then return (read, g.broken, c)
      readPlainFrom inFlow indent fuel c g read

/-- Reads a plain scalar. Outside of brackets its further lines are indented more than
`indent`. -/
def readPlain (c : Cursor) (inFlow : Bool) (indent : Int) :
    Option (List Char × Bool × Cursor) :=
  c.readPlainFrom inFlow (indent + 1) (c.rest.length + 1) Gap.empty []

/-! ## Quoted scalars -/

/-- The characters for which the one-letter escapes stand. -/
def shortEscape : Char → Option Char
  | '0' => some '\x00'
  | 'a' => some '\x07'
  | 'b' => some '\x08'
  | 't' => some '\t'
  | '\t' => some '\t'
  | 'n' => some '\n'
  | 'v' => some '\x0b'
  | 'f' => some '\x0c'
  | 'r' => some '\r'
  | 'e' => some '\x1b'
  | ' ' => some ' '
  | '"' => some '"'
  | '/' => some '/'
  | '\\' => some '\\'
  | 'N' => some '\u0085'
  | '_' => some '\u00a0'
  | 'L' => some '\u2028'
  | 'P' => some '\u2029'
  | _ => none

/-- The numbers of digits behind the letters of escapes by code point. -/
def escapeWidth : Char → Option Nat
  | 'x' => some 2
  | 'u' => some 4
  | 'U' => some 8
  | _ => none

/-- The character with a code point. -/
def charOf? (n : Nat) : Option Char := if n.isValidChar then some (Char.ofNat n) else none

/-- The character for which the text behind a backslash stands, and the length of that text. -/
def escape : List Char → Option (Char × Nat)
  | [] => none
  | e :: rest =>
    match shortEscape e with
    | some c => some (c, 1)
    | none => do
      let width ← escapeWidth e
      if rest.length < width then none
      else
        let code ← Digits.value 16 (rest.take width)
        let c ← charOf? code
        return (c, width + 1)

/-- Reads the word of a single-quoted scalar, in which two quotes stand for one. -/
def readSingleWord : (fuel : Nat) → Cursor → List Char → List Char × Cursor
  | 0, c, read => (read, c)
  | fuel + 1, c, read =>
    match c.rest with
    | '\'' :: '\'' :: _ => readSingleWord fuel (c.skip 2) (read ++ ['\''])
    | d :: _ =>
      if isSpace d || d == '\'' then (read, c) else readSingleWord fuel (c.skip 1) (read ++ [d])
    | [] => (read, c)

/-- Reads the word of a double-quoted scalar. The answer tells whether the word ends with an
escaped line break. -/
def readDoubleWord : (fuel : Nat) → Cursor → List Char → Option (List Char × Bool × Cursor)
  | 0, c, read => some (read, false, c)
  | fuel + 1, c, read =>
    match c.rest with
    | '\\' :: rest =>
      if startsWith isBreak rest then some (read, true, (c.skip 1).skipLine)
      else do
        let (d, n) ← escape rest
        readDoubleWord fuel (c.skip (n + 1)) (read ++ [d])
    | d :: _ =>
      if isSpace d || d == '"' then some (read, false, c)
      else readDoubleWord fuel (c.skip 1) (read ++ [d])
    | [] => some (read, false, c)

/-- Reads the word of a quoted scalar. -/
def readQuotedWord (c : Cursor) (quote : Char) : Option (List Char × Bool × Cursor) :=
  if quote == '"' then c.readDoubleWord c.rest.length []
  else
    let (word, c) := c.readSingleWord c.rest.length []
    some (word, false, c)

/-- Reads on in a quoted scalar up to its closing quote. -/
def readQuotedFrom (quote : Char) :
    (fuel : Nat) → Cursor → List Char → Option (List Char × Cursor)
  | 0, _, _ => none
  | fuel + 1, c, read =>
    if c.atMarker || c.rest.isEmpty then none
    else do
      let (word, broken, c) ← c.readQuotedWord quote
      let read := read ++ word
      if startsWith (· == quote) c.rest then return (read, c.skip 1)
      let (g, c) ← c.readGap 0 broken
      readQuotedFrom quote fuel c (read ++ g.text)

/-- Reads a quoted scalar behind its opening quote. -/
def readQuoted (c : Cursor) (quote : Char) : Option (List Char × Cursor) :=
  c.readQuotedFrom quote (c.rest.length + 1) []

/-! ## Block scalars -/

/-- What becomes of the line breaks behind the last line of a block. -/
inductive Chomping where
  | strip
  | clip
  | keep
  deriving DecidableEq, Repr

/-- A chomping indicator at the cursor, if there is one. -/
def readChomping (c : Cursor) : Option (Chomping × Cursor) :=
  match c.rest with
  | '+' :: _ => some (.keep, c.skip 1)
  | '-' :: _ => some (.strip, c.skip 1)
  | _ => none

/-- An indentation indicator at the cursor: zero if there is none. -/
def readIncrement (c : Cursor) : Option (Nat × Cursor) :=
  match c.rest with
  | d :: _ =>
    if d == '0' then none
    else if Digits.isDigit d then some (d.toNat - '0'.toNat, c.skip 1)
    else some (0, c)
  | [] => some (0, c)

/-- The two indicators in any order. -/
def readBlockHeader (c : Cursor) : Option (Chomping × Nat × Cursor) :=
  match c.readChomping with
  | some (chomping, c) => do
    let (n, c) ← c.readIncrement
    return (chomping, n, c)
  | none => do
    let (n, c) ← c.readIncrement
    if n = 0 then return (.clip, 0, c)
    match c.readChomping with
    | some (chomping, c) => return (chomping, n, c)
    | none => return (.clip, n, c)

/-- Passes indentation and empty lines up to column `indent`; column zero stands for an
indentation that is not known. The answer has the line breaks and the widest indentation. -/
def readEmptyLines (indent : Nat) :
    (fuel : Nat) → Cursor → Nat → List Char → Option (List Char × Nat × Cursor)
  | 0, _, _, _ => none
  | fuel + 1, c, widest, read =>
    let spaces := (c.rest.takeWhile (· == ' ')).length
    let c := c.skip (if indent = 0 then spaces else min spaces (indent - c.column))
    let widest := max widest c.column
    if (indent = 0 || c.column < indent) && startsWith (· == '\t') c.rest then none
    else if startsWith isBreak c.rest then
      readEmptyLines indent fuel c.skipLine widest (read ++ c.lineBreak)
    else some (read, widest, c)

/-- The parts of a block that have been read: the text, the last line break, the empty lines
behind it, and whether the last line began with a blank. -/
structure BlockLines where
  text : List Char
  lastBreak : List Char
  empty : List Char
  indented : Bool

/-- The text with the breaks before a further line: in a folded block one break between two
lines that do not begin with a blank stands for a space. -/
def BlockLines.joined (b : BlockLines) (folded indented : Bool) : List Char :=
  if folded && b.lastBreak == ['\n'] && !b.indented && !indented then
    b.text ++ (if b.empty.isEmpty then [' '] else []) ++ b.empty
  else b.text ++ b.lastBreak ++ b.empty

/-- Reads the lines of a block at column `indent`. -/
def readBlockLines (folded : Bool) (indent : Nat) :
    (fuel : Nat) → Cursor → BlockLines → Option (BlockLines × Cursor)
  | 0, _, _ => none
  | fuel + 1, c, b =>
    if c.column ≠ indent || c.rest.isEmpty then some (b, c)
    else do
      let indented := startsWith isBlank c.rest
      let line := c.rest.takeWhile (fun d => !isBreak d)
      let text := b.joined folded indented ++ line
      let c := c.skip line.length
      let lastBreak := c.lineBreak
      let c := c.skipLine
      let (empty, _, c) ← c.readEmptyLines indent (c.rest.length + 1) 0 []
      readBlockLines folded indent fuel c ⟨text, lastBreak, empty, indented⟩

/-- Reads a block scalar behind its indicator, below a collection at column `indent`. -/
def readBlock (c : Cursor) (folded : Bool) (indent : Int) : Option (List Char × Cursor) := do
  let (chomping, increment, c) ← c.readBlockHeader
  let c ← c.skipToNextLine
  let stated := if increment = 0 then 0 else (max indent 0).toNat + increment
  let (empty, widest, c) ← c.readEmptyLines stated (c.rest.length + 1) 0 []
  let column := if stated = 0 then max widest (max (indent + 1) 1).toNat else stated
  let (b, c) ← c.readBlockLines folded column (c.rest.length + 1) ⟨[], [], empty, false⟩
  let tail := match chomping with
    | .strip => []
    | .clip => b.lastBreak
    | .keep => b.lastBreak ++ b.empty
  return (b.text ++ tail, c)

end Cursor

end BoardFarm.Yaml
