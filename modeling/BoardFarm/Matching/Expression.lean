/-!
# Regular expressions

An expression is a sequence of parts: the start of the text, its end, a part that stands for
one character, and such a part repeated any number of times.

In the written form `^` and `$` are the start and the end, a dot is any character but a line
feed, brackets enclose a class of characters, `*` repeats what stands in front of it, a
backslash makes the mark behind it ordinary, and any other character stands for itself. A
class that begins with `^` is a complement. Within a class `a-c` is a range and a double hyphen
takes the characters behind it away from those in front of it. Hyphens at the start of a class,
and a hyphen at its end, are members.

This is the part of the syntax that patterns are translated to. Groups, alternatives, counted,
optional and lazy repetitions, backslashes in front of letters and digits, classes within
classes and the other operators of classes are not read.

* `Expression.read?`: the expression that a text writes; a descending range fails.
* `Expression.isMatch`: whether an expression is found in a text.
-/

namespace BoardFarm

/-- A character of a written expression: one that may be a mark, or one behind a backslash. -/
inductive Sign where
  | plain (c : Char)
  | escaped (c : Char)
  deriving DecidableEq, Repr

namespace Sign

/-- The marks of the syntax. -/
def marks : List Char :=
  ['\\', '.', '+', '*', '?', '(', ')', '|', '[', ']', '{', '}', '^', '$', '#', '&', '-', '~']

def char : Sign → Char
  | plain c => c
  | escaped c => c

/-- Reads the signs of a written expression; behind a backslash stands a mark. -/
def ofText? : List Char → Option (List Sign)
  | [] => some []
  | '\\' :: c :: rest =>
    if c ∈ marks then (ofText? rest).map (escaped c :: ·) else none
  | c :: rest => if c = '\\' then none else (ofText? rest).map (plain c :: ·)

/-- Whether a sign repeats or joins other signs. -/
def isOperator (s : Sign) : Bool :=
  ['*', '+', '?', '(', ')', '|', '{'].any (fun c => s = plain c)

/-- Whether a sign may join the members of a class in a way that is not read. -/
def isClassOperator (s : Sign) : Bool := ['[', '&', '~'].any (fun c => s = plain c)

end Sign

/-- The characters from one to another. -/
structure CharRange where
  first : Char
  last : Char
  deriving DecidableEq, Repr

namespace CharRange

def has (r : CharRange) (c : Char) : Bool := r.first ≤ c && c ≤ r.last

end CharRange

/-- A class of characters: the members without those that are removed, or the complement. -/
structure CharClass where
  negated : Bool
  members : List CharRange
  removed : List (List CharRange)
  deriving DecidableEq, Repr

namespace CharClass

/-- Whether a character is in a class. -/
def has (k : CharClass) (c : Char) : Bool :=
  (k.members.any (·.has c) && k.removed.all (fun part => !part.any (·.has c))) != k.negated

/-- The end of a range whose first character stands just before some signs. -/
def rangeEnd? : List Sign → Option Char
  | hyphen :: e :: _ => if hyphen = .plain '-' ∧ e ≠ .plain '-' then some e.char else none
  | _ => none

/-- The members up to the first double hyphen, and the parts behind the double hyphens. -/
abbrev Parts : Type := List CharRange × List (List CharRange)

/-- Puts a range in front of the members. -/
def consMember (r : CharRange) (parts : Parts) : Parts := (r :: parts.1, parts.2)

/-- Reads the parts of a class behind its leading hyphens, after passing over `skip` signs; a
descending range fails. -/
def readParts? : (skip : Nat) → List Sign → Option Parts
  | _, [] => some ([], [])
  | skip + 1, _ :: rest => readParts? skip rest
  | 0, s :: rest =>
    if s = .plain '-' ∧ rest.head? = some (.plain '-') then
      (readParts? 1 rest).map (fun parts => ([], parts.1 :: parts.2))
    else
      match rangeEnd? rest with
      | some e =>
        if s.char ≤ e then (readParts? 2 rest).map (consMember ⟨s.char, e⟩) else none
      | none => (readParts? 0 rest).map (consMember ⟨s.char, s.char⟩)

/-- Reads what stands in a class, after the mark of a complement. -/
def ofBody? (negated : Bool) (body : List Sign) : Option CharClass :=
  if body.any Sign.isClassOperator then none
  else
    let hyphens := (body.takeWhile (· = .plain '-')).map (fun _ => CharRange.mk '-' '-')
    (readParts? 0 (body.dropWhile (· = .plain '-'))).map
      (fun parts => ⟨negated, hyphens ++ parts.1, parts.2⟩)

/-- Reads the class whose first member stands at the head of some signs, with `before` signs
between it and the opening bracket; also tells how many signs stand behind that bracket. -/
def closeAt? (negated : Bool) (before : Nat) (signs : List Sign) : Option (CharClass × Nat) :=
  let body := signs.takeWhile (· ≠ .plain ']')
  if body = [] ∨ body.length = signs.length then none
  else (ofBody? negated body).map (fun k => (k, before + body.length + 1))

/-- Reads the class that opens just before some signs. -/
def read? (signs : List Sign) : Option (CharClass × Nat) :=
  if signs.head? = some (.plain '^') then closeAt? true 1 signs.tail
  else closeAt? false 0 signs

end CharClass

/-- What stands for one character. -/
inductive Atom where
  | dot
  | literal (c : Char)
  | charClass (k : CharClass)
  deriving DecidableEq, Repr

namespace Atom

/-- Whether an atom stands for a character. -/
def accepts (c : Char) : Atom → Bool
  | dot => c != '\n'
  | literal d => c == d
  | charClass k => k.has c

/-- Reads the atom that starts with a sign; also tells how many signs more it takes up. -/
def read? (s : Sign) (rest : List Sign) : Option (Atom × Nat) :=
  if s = .plain '.' then some (dot, 0)
  else if s = .plain '[' then (CharClass.read? rest).map (fun p => (charClass p.1, p.2))
  else if s.isOperator then none
  else some (literal s.char, 0)

end Atom

/-- One part of an expression. -/
inductive ExpressionPart where
  | start
  | finish
  | once (a : Atom)
  | repeated (a : Atom)
  deriving DecidableEq, Repr

abbrev Expression : Type := List ExpressionPart

namespace Expression

/-- Reads an expression, after passing over `skip` signs. -/
def readFrom : (skip : Nat) → List Sign → Option Expression
  | _, [] => some []
  | skip + 1, _ :: rest => readFrom skip rest
  | 0, s :: rest =>
    if s = .plain '^' then (readFrom 0 rest).map (.start :: ·)
    else if s = .plain '$' then (readFrom 0 rest).map (.finish :: ·)
    else
      match Atom.read? s rest with
      | none => none
      | some (a, width) =>
        if (rest.drop width).head? = some (.plain '*') then
          (readFrom (width + 1) rest).map (.repeated a :: ·)
        else (readFrom width rest).map (.once a :: ·)

/-- The expression that a text writes. -/
def read? (cs : List Char) : Option Expression := (Sign.ofText? cs).bind (readFrom 0)

/-- From where an expression is found, where it is found with one more part in front: the
entries tell, for each suffix of a text, whether the expression is found at its head. The mark
`whole` tells whether nothing stands in front of the text. -/
def extend (p : ExpressionPart) (whole : Bool) : List Char → List Bool → List Bool
  | c :: cs, b :: row =>
    let later := extend p false cs row
    let here := match p with
      | .start => whole && b
      | .finish => false
      | .once a => a.accepts c && row.headD false
      | .repeated a => b || (a.accepts c && later.headD false)
    here :: later
  | _, row =>
    match p with
    | .start => row.map (whole && ·)
    | .finish => row
    | .once _ => [false]
    | .repeated _ => row

/-- For each suffix of a text, the longest first, whether an expression is found at its head. -/
def foundAt (e : Expression) (cs : List Char) : List Bool :=
  e.foldr (fun p row => extend p true cs row) (List.replicate (cs.length + 1) true)

/-- Whether an expression is found in a text. -/
def isMatch (e : Expression) (s : String) : Bool := (foundAt e s.toList).any id

end Expression

end BoardFarm
