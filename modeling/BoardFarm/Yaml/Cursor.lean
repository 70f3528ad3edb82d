/-!
# Reading positions in YAML text

A cursor is the unread text with its position: the characters before it, the line and the
column. A line ends at a line feed, a carriage return, both in this order, or one of the
Unicode line breaks.

* `Cursor.skip`, `Cursor.skipWhile`, `Cursor.skipLine`: the moves of a cursor.
* `Cursor.lineBreak`: the text for which a line break stands.
-/

namespace BoardFarm.Yaml

/-- A character that ends a line. -/
def isBreak (c : Char) : Bool :=
  c == '\n' || c == '\r' || c == '\u0085' || c == '\u2028' || c == '\u2029'

def isBlank (c : Char) : Bool := c == ' ' || c == '\t'

/-- A character of anchor names and tag handles. -/
def isWord (c : Char) : Bool :=
  ('0' ≤ c && c ≤ '9') || ('a' ≤ c && c ≤ 'z') || ('A' ≤ c && c ≤ 'Z') || c == '_' || c == '-'

/-- A character that may stand in a YAML text. -/
def isReadable (c : Char) : Bool :=
  c == '\t' || c == '\n' || c == '\r' || (0x20 ≤ c.toNat && c.toNat ≤ 0x7E) ||
    c.toNat == 0x85 || (0xA0 ≤ c.toNat && c.toNat ≤ 0xD7FF) ||
    (0xE000 ≤ c.toNat && c.toNat ≤ 0xFFFD) || 0x10000 ≤ c.toNat

/-- A character that means something else at the start of a plain scalar. -/
def isIndicator (c : Char) : Bool := "#,[]\x7b\x7d&*!|>'\"%@`".toList.contains c

/-- Whether a text is at its end or starts with a character of a class. -/
def endsAt (p : Char → Bool) : List Char → Bool
  | [] => true
  | c :: _ => p c

/-- Whether a text starts with a character of a class. -/
def startsWith (p : Char → Bool) : List Char → Bool
  | [] => false
  | c :: _ => p c

/-- A blank or a line break. -/
def isSpace (c : Char) : Bool := isBlank c || isBreak c

/-- The unread text and its position. -/
structure Cursor where
  rest : List Char
  index : Nat
  line : Nat
  column : Nat
  deriving Repr

namespace Cursor

def start (cs : List Char) : Cursor := ⟨cs, 0, 0, 0⟩

/-- Passes characters that do not end the line. -/
def skip (c : Cursor) (n : Nat) : Cursor :=
  ⟨c.rest.drop n, c.index + n, c.line, c.column + n⟩

/-- Passes the characters of a class, which do not end the line. -/
def skipWhile (c : Cursor) (p : Char → Bool) : Cursor := c.skip (c.rest.takeWhile p).length

/-- The text for which the line break at the cursor stands: a Unicode line or paragraph
separator for itself, any other break for a line feed. -/
def lineBreak (c : Cursor) : List Char :=
  match c.rest with
  | '\u2028' :: _ => ['\u2028']
  | '\u2029' :: _ => ['\u2029']
  | b :: _ => if isBreak b then ['\n'] else []
  | [] => []

def skipLine (c : Cursor) : Cursor :=
  match c.rest with
  | '\r' :: '\n' :: rest => ⟨rest, c.index + 2, c.line + 1, 0⟩
  | b :: rest => if isBreak b then ⟨rest, c.index + 1, c.line + 1, 0⟩ else c
  | [] => c

/-- Whether the text goes on with some characters. -/
def sees (c : Cursor) (cs : List Char) : Bool := cs.isPrefixOf c.rest

/-- Whether a line starts here with a document marker. -/
def atMarker (c : Cursor) : Bool :=
  c.column == 0 && (c.sees ['-', '-', '-'] || c.sees ['.', '.', '.']) &&
    endsAt isSpace (c.rest.drop 3)

/-- Passes blanks and a comment up to the end of the line, and the line break; fails if
anything else stands there. -/
def skipToNextLine (c : Cursor) : Option Cursor :=
  let c := c.skipWhile isBlank
  let c := if startsWith (· == '#') c.rest then c.skipWhile (fun d => !isBreak d) else c
  if endsAt isBreak c.rest then some c.skipLine else none

end Cursor

end BoardFarm.Yaml
