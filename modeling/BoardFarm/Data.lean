import BoardFarm.Number.Double
import BoardFarm.Text.Quoted

/-!
# Untyped data

The parameters of equipment come as untyped data: scalars, sequences and mappings with keys of
any kind. Integers lie between `-2 ^ 63` and `2 ^ 64 - 1`.

* `Data.found`: how a message names the kind of a value.
* `Data.same`: the equality under which the keys of a mapping are distinct.
-/

namespace BoardFarm

/-- A scalar, a sequence or a mapping. -/
inductive Data where
  | null
  | bool (b : Bool)
  | int (n : Int)
  | float (x : Double)
  | text (s : String)
  | sequence (items : List Data)
  | mapping (entries : List (Data × Data))
  deriving Repr

namespace Data

/-- How a message names what was found. -/
def found : Data → String
  | null => "unit value"
  | bool b => "boolean `" ++ (if b then "true" else "false") ++ "`"
  | int n => "integer `" ++ Digits.integer n ++ "`"
  | float x => "floating point `" ++ x.positional ++ "`"
  | text s => "string " ++ Quoted.cite s
  | sequence _ => "sequence"
  | mapping _ => "map"

mutual

/-- Equality of values: floating point numbers are equal when their values are, a
not-a-number equals itself, and the order of entries does not count. -/
def same : Data → Data → Bool
  | null, null => true
  | bool a, bool b => a == b
  | int a, int b => a == b
  | float x, float y => x.sameValue y
  | text s, text t => s == t
  | sequence as, sequence bs => sameItems as bs
  | mapping as, mapping bs => as.length == bs.length && sameEntries as bs
  | _, _ => false

/-- Equality of sequences, item by item. -/
def sameItems : List Data → List Data → Bool
  | [], [] => true
  | a :: as, b :: bs => same a b && sameItems as bs
  | _, _ => false

/-- Whether every entry of the first list is equal to some entry of the second. -/
def sameEntries : List (Data × Data) → List (Data × Data) → Bool
  | [], _ => true
  | (k, v) :: rest, bs => bs.any (fun e => same k e.1 && same v e.2) && sameEntries rest bs

end

end Data

end BoardFarm
