import BoardFarm.Order
import BoardFarm.Number.Digits

/-!
# Tags

A tag is a key with a value. Keys are identifiers of at least two characters; values are
words of letters, digits, `_`, `.` and `-`, and may be empty.

* `Tag.checkKey`, `Tag.checkValue`: the rules for the two parts.
-/

namespace BoardFarm

/-- A key with its value. -/
structure Tag where
  key : String
  value : String
  deriving DecidableEq, Repr

/-- Why a key or a value may not be used in a tag. -/
inductive TagError where
  | key (key : String)
  | value (key value : String)
  deriving DecidableEq, Repr

namespace TagError

def message : TagError → String
  | key k => "invalid tag key '" ++ k ++ "'"
  | value k v => "invalid tag value '" ++ v ++ "' for key '" ++ k ++ "'"

end TagError

namespace Tag

/-- Tags are ordered by key and then by value. -/
def parts (t : Tag) : List String := [t.key, t.value]

instance : LT Tag := ⟨fun a b => a.parts < b.parts⟩

instance : DecidableLT Tag := fun a b => inferInstanceAs (Decidable (a.parts < b.parts))

instance : KeyOrder Tag :=
  KeyOrder.ofInjective parts (fun _ _ => Iff.rfl)
    (fun a b h => by cases a; cases b; simpa [parts] using h)

def isLower (c : Char) : Bool := 'a' ≤ c && c ≤ 'z'

def isUpper (c : Char) : Bool := 'A' ≤ c && c ≤ 'Z'

/-- A lower case letter, then at least one lower case letter, digit or underscore. -/
def isKey (cs : List Char) : Bool :=
  match cs with
  | first :: second :: rest =>
    isLower first && (second :: rest).all (fun c => isLower c || Digits.isDigit c || c == '_')
  | _ => false

/-- Letters, digits, underscores, points and hyphens. -/
def isValue (cs : List Char) : Bool :=
  cs.all (fun c =>
    isLower c || isUpper c || Digits.isDigit c || c == '_' || c == '.' || c == '-')

/-- Accepts a key of a tag. -/
def checkKey (key : String) : Except TagError Unit :=
  if isKey key.toList then .ok () else .error (.key key)

/-- Accepts a value of the tag with a key. -/
def checkValue (key value : String) : Except TagError Unit :=
  if isValue value.toList then .ok () else .error (.value key value)

/-- Accepts a tag; of two faults the one of the key is reported. -/
def check (key value : String) : Except TagError Unit :=
  match checkKey key with
  | .error e => .error e
  | .ok () => checkValue key value

/-- Accepts a list of tags; the first fault is reported. -/
def checkAll : List (String × String) → Except TagError Unit
  | [] => .ok ()
  | (k, v) :: rest =>
    match check k v with
    | .error e => .error e
    | .ok () => checkAll rest

end Tag

end BoardFarm
