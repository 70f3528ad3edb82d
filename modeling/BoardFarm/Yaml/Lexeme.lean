import BoardFarm.Yaml.Property
import BoardFarm.Yaml.ScalarText

/-!
# Lexemes of YAML text

Indentation becomes explicit in lexemes: block collections have lexemes for their start and
end, and so has every key of a mapping. A scalar, an alias or a bracket may turn out to begin
a key only when the colon behind it is read; then the lexeme of the key, and of the start of a
mapping, is inserted before it. Such a key ends on its line within 1024 characters.

* `Lexeme.ofText?`: the lexemes of a text; there are none if the text is malformed.
-/

namespace BoardFarm.Yaml

/-- The pieces of a YAML text. -/
inductive Lexeme where
  | directive (d : Directive)
  | documentStart
  | documentEnd
  | blockSequence
  | blockMapping
  | blockEnd
  | flowSequence
  | flowSequenceEnd
  | flowMapping
  | flowMappingEnd
  | item
  | comma
  | key
  | value
  | reference (name : List Char)
  | anchor (name : List Char)
  | tag (name : TagName)
  | scalar (isPlain : Bool) (text : List Char)
  deriving DecidableEq, Repr

/-- A place where a key may have begun. -/
structure KeyStart where
  /-- Only a key may stand here. -/
  required : Bool
  /-- The number of lexemes before it. -/
  lexemes : Nat
  index : Nat
  line : Nat
  column : Nat
  deriving Repr

/-- What has been read of a text: the lexemes and the layout of what is still open. -/
structure Layout where
  cursor : Cursor
  lexemes : Array Lexeme
  /-- The column of the innermost block collection; `-1` outside of all of them. -/
  indent : Int
  outerIndents : List Int
  /-- Whether a key may begin here. -/
  keyAllowed : Bool
  /-- Where a key may have begun, within the innermost brackets. -/
  keyStart : Option KeyStart
  /-- The same for the brackets around these, and outside of all brackets. -/
  outerKeyStarts : List (Option KeyStart)

namespace Layout

/-- The layout at the start of a text. -/
def start (cs : List Char) : Layout :=
  ⟨Cursor.start cs, #[], -1, [], true, none, []⟩

/-- Whether the cursor is within brackets. -/
def inFlow (s : Layout) : Bool := !s.outerKeyStarts.isEmpty

def emit (s : Layout) (t : Lexeme) : Layout := { s with lexemes := s.lexemes.push t }

/-- Passes characters and adds a lexeme. -/
def emitAfter (s : Layout) (n : Nat) (t : Lexeme) : Layout :=
  { s with cursor := s.cursor.skip n, lexemes := s.lexemes.push t }

/-- Adds a lexeme behind the first `n` lexemes. -/
def insertAt (s : Layout) (n : Nat) (t : Lexeme) : Layout :=
  { s with lexemes := s.lexemes.insertIdxIfInBounds n t }

/-! ## Starts of keys -/

/-- A key start that is too far back is given up; a required key may not be. -/
def refreshKey (c : Cursor) : Option KeyStart → Option (Option KeyStart)
  | none => some none
  | some k =>
    if k.line < c.line || k.index + 1024 < c.index then (if k.required then none else some none)
    else some (some k)

/-- Gives up the key starts that are too far back. -/
def refreshKeys (s : Layout) : Option Layout := do
  let keyStart ← refreshKey s.cursor s.keyStart
  let outerKeyStarts ← s.outerKeyStarts.mapM (refreshKey s.cursor)
  return { s with keyStart, outerKeyStarts }

/-- Gives up the innermost key start. -/
def dropKey (s : Layout) : Option Layout :=
  match s.keyStart with
  | none => some s
  | some k => if k.required then none else some { s with keyStart := none }

/-- Notes that a key may begin here. -/
def noteKey (s : Layout) : Option Layout :=
  if s.keyAllowed then do
    let s ← s.dropKey
    return { s with
      keyStart := some ⟨!s.inFlow && s.indent == s.cursor.column, s.lexemes.size,
        s.cursor.index, s.cursor.line, s.cursor.column⟩ }
  else some s

/-! ## Block collections -/

/-- Opens a block collection behind the first `n` lexemes if `column` lies deeper than the
innermost one. -/
def openBlock (s : Layout) (column n : Nat) (t : Lexeme) : Layout :=
  if !s.inFlow && s.indent < column then
    { s.insertAt n t with indent := column, outerIndents := s.indent :: s.outerIndents }
  else s

/-- The number of collections deeper than a column, and those around them. -/
def deeperThan (column : Int) : Int → List Int → Nat × Int × List Int
  | indent, [] => (0, indent, [])
  | indent, outer :: rest =>
    if column < indent then
      let (n, indent, rest) := deeperThan column outer rest
      (n + 1, indent, rest)
    else (0, indent, outer :: rest)

/-- Closes the block collections deeper than a column. -/
def closeBlocks (s : Layout) (column : Int) : Layout :=
  if s.inFlow then s
  else
    let (n, indent, outerIndents) := deeperThan column s.indent s.outerIndents
    { s with
      lexemes := s.lexemes ++ Array.replicate n .blockEnd
      indent, outerIndents }

/-! ## The lexemes one by one -/

/-- Passes spaces, comments and line breaks. Tabs count as space only where no key may begin;
behind a line break outside of brackets a key may begin. -/
def passSpace : (fuel : Nat) → Layout → Layout
  | 0, s => s
  | fuel + 1, s =>
    let c := if s.cursor.index = 0 && s.cursor.sees ['\ufeff'] then s.cursor.skip 1 else s.cursor
    let c := c.skipWhile (fun d => d == ' ' || ((s.inFlow || !s.keyAllowed) && d == '\t'))
    let c := if c.sees ['#'] then c.skipWhile (fun d => !isBreak d) else c
    if startsWith isBreak c.rest then
      passSpace fuel { s with cursor := c.skipLine, keyAllowed := s.keyAllowed || !s.inFlow }
    else { s with cursor := c }

/-- A directive, which closes all block collections. -/
def readDirective (s : Layout) : Option Layout := do
  let s ← (s.closeBlocks (-1)).dropKey
  let (d, cursor) ← (s.cursor.skip 1).readDirective
  return { s.emit (.directive d) with cursor, keyAllowed := false }

/-- A document marker, which closes all block collections. -/
def readMarker (s : Layout) (t : Lexeme) : Option Layout := do
  let s ← (s.closeBlocks (-1)).dropKey
  return { s.emitAfter 3 t with keyAllowed := false }

def openBracket (s : Layout) (t : Lexeme) : Option Layout := do
  let s ← s.noteKey
  return { s.emitAfter 1 t with
    keyAllowed := true, keyStart := none, outerKeyStarts := s.keyStart :: s.outerKeyStarts }

def closeBracket (s : Layout) (t : Lexeme) : Option Layout := do
  let s ← s.dropKey
  let s := match s.outerKeyStarts with
    | [] => s
    | k :: rest => { s with keyStart := k, outerKeyStarts := rest }
  return { s.emitAfter 1 t with keyAllowed := false }

def readComma (s : Layout) : Option Layout := do
  let s ← s.dropKey
  return { s.emitAfter 1 .comma with keyAllowed := true }

/-- The hyphen of a sequence item. -/
def readItem (s : Layout) : Option Layout := do
  if !s.inFlow && !s.keyAllowed then none
  let s ← (s.openBlock s.cursor.column s.lexemes.size .blockSequence).dropKey
  return { s.emitAfter 1 .item with keyAllowed := true }

/-- The question mark of a key. -/
def readKey (s : Layout) : Option Layout := do
  if !s.inFlow && !s.keyAllowed then none
  let s ← (s.openBlock s.cursor.column s.lexemes.size .blockMapping).dropKey
  return { s.emitAfter 1 .key with keyAllowed := !s.inFlow }

def readValue (s : Layout) : Option Layout :=
  match s.keyStart with
  | some k =>
    let s := (s.insertAt k.lexemes .key).openBlock k.column k.lexemes .blockMapping
    some { s.emitAfter 1 .value with keyStart := none, keyAllowed := false }
  | none => do
    if !s.inFlow && !s.keyAllowed then none
    let s := s.openBlock s.cursor.column s.lexemes.size .blockMapping
    return { s.emitAfter 1 .value with keyAllowed := !s.inFlow }

def readName (s : Layout) (t : List Char → Lexeme) : Option Layout := do
  let s ← s.noteKey
  let (name, cursor) ← (s.cursor.skip 1).readAnchor
  return { s.emit (t name) with cursor, keyAllowed := false }

def readTag (s : Layout) : Option Layout := do
  let s ← s.noteKey
  let (name, cursor) ← s.cursor.readTag s.inFlow
  return { s.emit (.tag name) with cursor, keyAllowed := false }

/-- A block scalar, which is no key. -/
def readBlock (s : Layout) (folded : Bool) : Option Layout := do
  let s ← s.dropKey
  let (text, cursor) ← (s.cursor.skip 1).readBlock folded s.indent
  return { s.emit (.scalar false text) with cursor, keyAllowed := true }

def readQuoted (s : Layout) (quote : Char) : Option Layout := do
  let s ← s.noteKey
  let (text, cursor) ← (s.cursor.skip 1).readQuoted quote
  return { s.emit (.scalar false text) with cursor, keyAllowed := false }

/-- A plain scalar. Behind one that ends with a line break a key may begin. -/
def readPlain (s : Layout) : Option Layout := do
  let s ← s.noteKey
  let (text, broken, cursor) ← s.cursor.readPlain s.inFlow s.indent
  return { s.emit (.scalar true text) with cursor, keyAllowed := broken }

/-- Whether a plain scalar may start with a character before some text. -/
def startsPlain (inFlow : Bool) (c : Char) (rest : List Char) : Bool :=
  if c == '-' then !startsWith isBlank rest
  else if c == '?' || c == ':' then !inFlow && !endsAt isSpace rest
  else !isSpace c && !isIndicator c

/-- Reads the lexeme that starts with a character before some text. -/
def readLexeme (s : Layout) (c : Char) (rest : List Char) : Option Layout :=
  let alone := endsAt isSpace rest
  if s.cursor.column = 0 && c == '%' then s.readDirective
  else if s.cursor.atMarker then
    s.readMarker (if c == '-' then .documentStart else .documentEnd)
  else if c == '[' then s.openBracket .flowSequence
  else if c == '{' then s.openBracket .flowMapping
  else if c == ']' then s.closeBracket .flowSequenceEnd
  else if c == '}' then s.closeBracket .flowMappingEnd
  else if c == ',' then s.readComma
  else if c == '-' && alone then s.readItem
  else if c == '?' && (s.inFlow || alone) then s.readKey
  else if c == ':' && (s.inFlow || alone) then s.readValue
  else if c == '*' then s.readName .reference
  else if c == '&' then s.readName .anchor
  else if c == '!' then s.readTag
  else if (c == '|' || c == '>') && !s.inFlow then s.readBlock (c == '>')
  else if c == '\'' || c == '"' then s.readQuoted c
  else if startsPlain s.inFlow c rest then s.readPlain
  else none

/-- The end of the text, which closes all block collections. -/
def finish (s : Layout) : Option (Array Lexeme) := do
  let s ← (s.closeBlocks (-1)).dropKey
  return s.lexemes

/-- Reads on up to the end of the text. -/
def readAll : (fuel : Nat) → Layout → Option (Array Lexeme)
  | 0, _ => none
  | fuel + 1, s => do
    let s ← (passSpace (s.cursor.rest.length + 1) s).refreshKeys
    let s := s.closeBlocks s.cursor.column
    match s.cursor.rest with
    | [] => s.finish
    | c :: rest =>
      let s ← s.readLexeme c rest
      readAll fuel s

end Layout

/-- The lexemes of a text. Each of them passes at least one character. -/
def Lexeme.ofText? (s : String) : Option (List Lexeme) :=
  let cs := s.toList
  if cs.all isReadable then (Layout.readAll (cs.length + 1) (Layout.start cs)).map Array.toList
  else none

end BoardFarm.Yaml
