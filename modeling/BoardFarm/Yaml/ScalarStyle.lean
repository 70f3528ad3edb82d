import BoardFarm.Yaml.Value

/-!
# Styles of YAML scalars

A text is written plain where it then reads as the same text. Otherwise it is put between
single quotes, which keep all characters but not all spaces around line breaks, and where
these do not suffice between double quotes with escapes. A text with line feeds becomes a
literal block if it has no trailing spaces that would be lost.

* `ScalarStyle.ofText`: the style of a text.
* `ScalarStyle.write`: a text written in a style.
-/

namespace BoardFarm.Yaml

/-- The ways to write a text. -/
inductive ScalarStyle where
  | plain
  | singleQuoted
  | doubleQuoted
  | literal
  deriving DecidableEq, Repr

namespace ScalarStyle

/-! ## The choice of a style -/

/-- A character that is written as it is. -/
def isPrintable (c : Char) : Bool :=
  c == '\n' || (0x20 ≤ c.toNat && c.toNat ≤ 0x7E) || (0xA0 ≤ c.toNat && c.toNat ≤ 0xD7FF) ||
    (0xE000 ≤ c.toNat && c.toNat ≤ 0xFFFD && c.toNat != 0xFEFF) || 0x10000 ≤ c.toNat

/-- Whether a character of one class is followed by one of another. -/
def hasPair (p q : Char → Bool) (cs : List Char) : Bool :=
  (cs.zip (cs.drop 1)).any (fun e => p e.1 && q e.2)

/-- Whether the last character is of a class. -/
def endsWith (p : Char → Bool) (cs : List Char) : Bool := cs.getLast?.any p

def isSpaceChar (c : Char) : Bool := c == ' '

/-- Whether a text starts like a key, an item or a mark of a complex key. -/
def startsAsStructure : List Char → Bool
  | c :: rest => (c == '-' || c == '?' || c == ':') && endsAt isSpace rest
  | [] => false

/-- Whether the characters behind the first one hold the end of a key or the start of a
comment. -/
def holdsStructure (cs : List Char) : Bool :=
  hasPair isSpace (· == '#') cs || hasPair (· == ':') isSpace (cs.drop 1) ||
    endsWith (· == ':') (cs.drop 1)

/-- Whether a text would be taken for something else if it were plain. -/
def isStructural (cs : List Char) : Bool :=
  ['-', '-', '-'].isPrefixOf cs || ['.', '.', '.'].isPrefixOf cs || startsWith isIndicator cs ||
    startsAsStructure cs || holdsStructure cs

/-- Whether escapes are needed: for a character without a printed form, or for a space before
a line break. -/
def needsEscapes (cs : List Char) : Bool :=
  cs.any (fun c => !isPrintable c) || hasPair isSpaceChar isBreak cs

/-- Whether a text may be plain. -/
def allowsPlain (cs : List Char) : Bool :=
  !(needsEscapes cs || cs.any isBreak || startsWith isSpaceChar cs || endsWith isSpaceChar cs ||
    isStructural cs)

/-- Whether a text may stand between single quotes. -/
def allowsSingleQuotes (cs : List Char) : Bool :=
  !(needsEscapes cs || hasPair isBreak isSpaceChar cs)

/-- Whether a text may be a literal block. -/
def allowsLiteral (cs : List Char) : Bool := !(needsEscapes cs || endsWith isSpaceChar cs)

/-- Whether a plain scalar reads as its text, and not as a number, a truth value or null. -/
def readsAsText (s : String) : Bool :=
  match Scalar.untyped s with
  | some (.text _) => !Scalar.isZeroLed s.toList
  | _ => false

def ofText (s : String) : ScalarStyle :=
  if s.toList.contains '\n' then (if allowsLiteral s.toList then .literal else .doubleQuoted)
  else if readsAsText s && allowsPlain s.toList then .plain
  else if allowsSingleQuotes s.toList then .singleQuoted
  else .doubleQuoted

/-! ## The written forms -/

def escape (c : Char) : List Char :=
  match c with
  | '"' => ['\\', '"']
  | '\\' => ['\\', '\\']
  | '\x00' => ['\\', '0']
  | '\x07' => ['\\', 'a']
  | '\x08' => ['\\', 'b']
  | '\t' => ['\\', 't']
  | '\n' => ['\\', 'n']
  | '\x0b' => ['\\', 'v']
  | '\x0c' => ['\\', 'f']
  | '\r' => ['\\', 'r']
  | '\x1b' => ['\\', 'e']
  | '\u0085' => ['\\', 'N']
  | '\u2028' => ['\\', 'L']
  | '\u2029' => ['\\', 'P']
  | c =>
    if isPrintable c then [c]
    else if c.toNat < 0x100 then '\\' :: 'x' :: Digits.paddedHex 2 c.toNat
    else if c.toNat < 0x10000 then '\\' :: 'u' :: Digits.paddedHex 4 c.toNat
    else '\\' :: 'U' :: Digits.paddedHex 8 c.toNat

/-- The text between single quotes: a quote is written twice, and the text behind a line break
is indented. -/
def writeSingle (pad : List Char) : (broken : Bool) → List Char → List Char
  | broken, [] => if broken then pad else []
  | broken, c :: rest =>
    if isBreak c then c :: writeSingle pad true rest
    else
      (if broken then pad else []) ++ (if c = '\'' then ['\'', '\''] else [c]) ++
        writeSingle pad false rest

/-- The lines of a literal block; empty lines are not indented. -/
def writeLiteral (pad : List Char) : (broken : Bool) → List Char → List Char
  | _, [] => []
  | broken, c :: rest =>
    if isBreak c then c :: writeLiteral pad true rest
    else (if broken then pad else []) ++ c :: writeLiteral pad false rest

/-- The mark that keeps the indentation of a block whose first line does not show it. -/
def indentMark (cs : List Char) : List Char :=
  if startsWith (fun c => isSpaceChar c || isBreak c) cs then ['2'] else []

/-- The mark that tells how many line breaks end a block: none, all, or exactly one. -/
def endMark (cs : List Char) : List Char :=
  match cs.reverse with
  | [] => ['-']
  | last :: before =>
    if !isBreak last then ['-'] else if endsAt isBreak before then ['+'] else []

/-- A text written in a style; further lines are indented by `pad`. -/
def write (pad : List Char) (style : ScalarStyle) (cs : List Char) : List Char :=
  match style with
  | plain => cs
  | singleQuoted => '\'' :: writeSingle pad false cs ++ ['\'']
  | doubleQuoted => '"' :: cs.flatMap escape ++ ['"']
  | literal => '|' :: indentMark cs ++ endMark cs ++ '\n' :: writeLiteral pad true cs

end ScalarStyle

end BoardFarm.Yaml
