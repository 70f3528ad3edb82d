import BoardFarm.Yaml.ScalarStyle

/-!
# Block layout of YAML documents

A document is written in block form: each entry of a mapping and each item of a sequence
starts on a line of its own, mappings are indented by two columns, and the items of a
sequence stand right under its key. Empty collections stand between brackets. A key that is
long or takes several lines is marked as such, and its value stands on the next line.

* `Data.document`: the text of a document.
-/

namespace BoardFarm.Data

open Yaml (ScalarStyle isBreak)

/-- The spaces at the start of a line. -/
def pad (indent : Nat) : List Char := List.replicate indent ' '

/-- A scalar within a collection that is indented by `indent`; an empty collection counts as
one. -/
def scalar? (indent : Nat) : Data → Option (List Char)
  | null => some "null".toList
  | bool b => some (if b then "true".toList else "false".toList)
  | int n => some (Digits.integer n).toList
  | float x => some x.compact.toList
  | text s => some ((ScalarStyle.ofText s).write (pad (indent + 2)) s.toList)
  | sequence [] => some ['[', ']']
  | mapping [] => some ['\x7b', '\x7d']
  | sequence (_ :: _) => none
  | mapping (_ :: _) => none

/-- The end of a line, unless a line break has just been written. -/
def lineEnd (cs : List Char) : List Char :=
  if Yaml.ScalarStyle.endsWith isBreak cs then [] else ['\n']

/-- The most bytes of a key that stands on one line with its value. -/
def maxKeySize : Nat := 128

/-- The key of an entry if it can stand on one line with the value. -/
def simpleKey? (indent : Nat) (key : Data) : Option (List Char) :=
  let isShort := match key with
    | text s => s.utf8ByteSize ≤ maxKeySize && !s.toList.any isBreak
    | _ => true
  if isShort then scalar? indent key else none

mutual

/-- A value behind a dash, a question mark or a colon at column `indent`. -/
def compact (indent : Nat) (d : Data) : List Char :=
  match d with
  | sequence (a :: rest) => items (indent + 2) false (a :: rest)
  | mapping (e :: rest) => entries (indent + 2) false (e :: rest)
  | d =>
    let body := (scalar? indent d).getD []
    body ++ lineEnd body

/-- The value behind a key in a mapping at column `indent`. -/
def value (indent : Nat) (d : Data) : List Char :=
  match d with
  | sequence (a :: rest) => '\n' :: items indent true (a :: rest)
  | mapping (e :: rest) => '\n' :: entries (indent + 2) true (e :: rest)
  | d =>
    let body := (scalar? indent d).getD []
    ' ' :: body ++ lineEnd body

/-- The items of a sequence; the first one is indented unless its line has begun. -/
def items (indent : Nat) (padded : Bool) : List Data → List Char
  | [] => []
  | a :: rest =>
    (if padded then pad indent else []) ++ '-' :: ' ' :: compact indent a ++
      items indent true rest

/-- The entries of a mapping; the first one is indented unless its line has begun. -/
def entries (indent : Nat) (padded : Bool) : List (Data × Data) → List Char
  | [] => []
  | (k, v) :: rest =>
    let lead := if padded then pad indent else []
    (match simpleKey? indent k with
      | some key => lead ++ key ++ ':' :: value indent v
      | none =>
        lead ++ '?' :: ' ' :: compact indent k ++ pad indent ++ ':' :: ' ' :: compact indent v) ++
      entries indent true rest

end

def document (d : Data) : String :=
  match d with
  | sequence (a :: rest) => String.ofList (items 0 true (a :: rest))
  | mapping (e :: rest) => String.ofList (entries 0 true (e :: rest))
  | d =>
    let body := (scalar? 0 d).getD []
    String.ofList (body ++ lineEnd body)

end BoardFarm.Data
