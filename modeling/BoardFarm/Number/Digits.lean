/-!
# Written natural numbers

Digits are ASCII digits, most significant first.

* `Digits.value`: the number that a list of digits of some base denotes.
* `Digits.decimal`, `Digits.padded`: the shortest decimal form, and one of a least width.
-/

namespace BoardFarm.Digits

/-- The value of an ASCII digit of a base up to sixteen. -/
def digit? (base : Nat) (c : Char) : Option Nat :=
  let d :=
    if '0' ≤ c ∧ c ≤ '9' then some (c.toNat - '0'.toNat)
    else if 'a' ≤ c ∧ c ≤ 'f' then some (c.toNat - 'a'.toNat + 10)
    else if 'A' ≤ c ∧ c ≤ 'F' then some (c.toNat - 'A'.toNat + 10)
    else none
  d.filter (· < base)

/-- The number that digits denote after the digits already read. -/
def valueFrom (base read : Nat) : List Char → Option Nat
  | [] => some read
  | c :: rest =>
    match digit? base c with
    | none => none
    | some d => valueFrom base (read * base + d) rest

/-- The number that a non-empty list of digits denotes. -/
def value (base : Nat) (cs : List Char) : Option Nat :=
  if cs.isEmpty then none else valueFrom base 0 cs

/-- Whether a character is an ASCII decimal digit. -/
def isDigit (c : Char) : Bool := '0' ≤ c && c ≤ '9'

/-- The decimal digits of a number, without leading zeros. -/
def decimal (n : Nat) : List Char := Nat.toDigits 10 n

/-- The decimal form, filled with zeros on the left up to a width. -/
def padded (width n : Nat) : List Char :=
  let ds := decimal n
  List.replicate (width - ds.length) '0' ++ ds

/-- The hexadecimal form in upper case, filled with zeros on the left up to a width. -/
def paddedHex (width n : Nat) : List Char :=
  let ds := (Nat.toDigits 16 n).map Char.toUpper
  List.replicate (width - ds.length) '0' ++ ds

/-- The decimal form of an integer, with a minus sign where it is negative. -/
def integer (n : Int) : String :=
  match n with
  | .ofNat n => String.ofList (decimal n)
  | .negSucc n => "-" ++ String.ofList (decimal (n + 1))

end BoardFarm.Digits
