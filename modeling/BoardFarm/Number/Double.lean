import BoardFarm.Number.Digits

/-!
# Double-precision numbers as bits

A double is its 64 bits, so equality and order are those of the bits and a not-a-number keeps
its payload. Reading decimal text rounds to the nearest double, ties to even; printing gives
the fewest digits that read back.

* `Double.rank`: the IEEE total order as an integer.
* `Double.ofRatio`: the double nearest to a quotient of naturals.
* `Double.parse?`: the double that a decimal text denotes.
* `Double.positional`, `Double.compact`: the two printed layouts.
-/

namespace BoardFarm

/-- A double-precision number, as its bits. -/
structure Double where
  bits : UInt64
  deriving DecidableEq, Repr

namespace Double

def code (x : Double) : Nat := x.bits.toNat

/-- Whether the sign bit is set. -/
def isNegative (x : Double) : Bool := 1 <<< 63 ≤ x.code

/-- The bits without the sign bit. -/
def magnitude (x : Double) : Nat := x.code % (1 <<< 63)

/-- The bits of an infinity, without the sign bit. -/
def infinityCode : Nat := 2047 <<< 52

/-- Neither an infinity nor a not-a-number. -/
def isFinite (x : Double) : Bool := x.magnitude < infinityCode

/-- Whether the bits denote no number. -/
def isNaN (x : Double) : Bool := infinityCode < x.magnitude

/-- The place in the IEEE total order: negative numbers come before positive ones, and among
negative numbers the larger magnitude comes first. -/
def rank (x : Double) : Int :=
  if x.isNegative then -1 - (x.magnitude : Int) else (x.magnitude : Int)

/-- Whether two doubles have one value: the zeros are equal, and all not-a-numbers are. -/
def sameValue (x y : Double) : Bool :=
  x == y || (x.isNaN && y.isNaN) || (x.magnitude == 0 && y.magnitude == 0)

/-- The double with a sign and a magnitude code. -/
def ofCode (negative : Bool) (magnitude : Nat) : Double :=
  ⟨UInt64.ofNat (if negative then 1 <<< 63 + magnitude else magnitude)⟩

/-! ## From quotients and decimals -/

/-- A quotient of naturals rounded to the nearest natural, a half to the even neighbour. -/
def roundQuotient (num den : Nat) : Nat :=
  let q := num / den
  let r := num % den
  if 2 * r < den then q
  else if den < 2 * r then q + 1
  else q + q % 2

/-- The exponent `e` with `2 ^ e ≤ num / den < 2 ^ (e + 1)`, for positive arguments. -/
def binaryExponent (num den : Nat) : Int :=
  let e : Int := (num.log2 : Int) - (den.log2 : Int)
  let atLeast : Bool :=
    if 0 ≤ e then den <<< e.toNat ≤ num else den ≤ num <<< (-e).toNat
  if atLeast then e else e - 1

/-- The magnitude code of the double nearest to a quotient of naturals, ties to even. -/
def ofRatio (num den : Nat) : Nat :=
  if num = 0 then 0
  else
    let unit : Int := max (binaryExponent num den - 52) (-1074)
    let m :=
      if 0 ≤ unit then roundQuotient num (den <<< unit.toNat)
      else roundQuotient (num <<< (-unit).toNat) den
    min infinityCode ((unit + 1074).toNat <<< 52 + m)

/-- The magnitude code of the double nearest to `n * 10 ^ e`. -/
def ofDecimal (n : Nat) (e : Int) : Nat :=
  if n = 0 then 0
  else if 400 < e then infinityCode
  else if (n.log2 : Int) + 1 + 3 * e < -1200 then 0
  else if 0 ≤ e then ofRatio (n * Nat.pow 10 e.toNat) 1
  else ofRatio n (Nat.pow 10 (-e).toNat)

/-- Splits an optional sign off; `true` stands for a minus. -/
def splitSign : List Char → Bool × List Char
  | '-' :: rest => (true, rest)
  | '+' :: rest => (false, rest)
  | cs => (false, cs)

/-- The exponent part of a decimal text: nothing, or a mark, a sign and digits. -/
def exponent? : List Char → Option Int
  | [] => some 0
  | c :: rest =>
    if c = 'e' ∨ c = 'E' then
      let (negative, digits) := splitSign rest
      (Digits.value 10 digits).map (fun n => if negative then -(n : Int) else (n : Int))
    else none

/-- The double that a decimal text denotes: a sign, digits with at most one point among them,
and an exponent. A number too large becomes an infinity. -/
def parse? (cs : List Char) : Option Double :=
  let (negative, cs) := splitSign cs
  let whole := cs.takeWhile Digits.isDigit
  let rest := cs.dropWhile Digits.isDigit
  let (fraction, tail) := match rest with
    | '.' :: more => (more.takeWhile Digits.isDigit, more.dropWhile Digits.isDigit)
    | _ => ([], rest)
  match Digits.value 10 (whole ++ fraction), exponent? tail with
  | some n, some e => some (ofCode negative (ofDecimal n (e - fraction.length)))
  | _, _ => none

/-! ## Shortest decimals -/

/-- Decimal digits without trailing zeros, and the power of ten of the last digit. -/
structure Decimal where
  digits : Nat
  exponent : Int
  deriving DecidableEq, Repr

/-- A positive magnitude code as a numerator and a denominator. -/
def ratio (magnitude : Nat) : Nat × Nat :=
  let field := magnitude >>> 52
  let m := if field = 0 then magnitude else 1 <<< 52 + magnitude % (1 <<< 52)
  let unit : Int := (max field 1 : Nat) - 1075
  if 0 ≤ unit then (m <<< unit.toNat, 1) else (m, 1 <<< (-unit).toNat)

/-- The multiples of `10 ^ e` next to a quotient, in units of `10 ^ e`: the nearer first. -/
def neighbours (num den : Nat) (e : Int) : List Nat :=
  let (num, den) :=
    if 0 ≤ e then (num, den * Nat.pow 10 e.toNat) else (num * Nat.pow 10 (-e).toNat, den)
  let q := num / den
  let r := num % den
  if 2 * r < den ∨ (2 * r = den ∧ q % 2 = 0) then [q, q + 1] else [q + 1, q]

/-- Drops trailing zeros. -/
def stripZeros : (fuel : Nat) → Decimal → Decimal
  | 0, d => d
  | fuel + 1, d =>
    if d.digits ≠ 0 ∧ d.digits % 10 = 0 then stripZeros fuel ⟨d.digits / 10, d.exponent + 1⟩
    else d

/-- Looks for a decimal that reads back, on finer and finer grids. -/
def searchShortest (magnitude num den : Nat) : (grids : Nat) → Int → Decimal
  | 0, e => ⟨(neighbours num den e).headD 0, e⟩
  | grids + 1, e =>
    match (neighbours num den e).find? (fun n => ofDecimal n e = magnitude) with
    | some n => ⟨n, e⟩
    | none => searchShortest magnitude num den grids (e - 1)

/-- The fewest decimal digits that read back as a positive finite magnitude code; of two
candidates on one grid, the nearer. -/
def shortest (magnitude : Nat) : Decimal :=
  let (num, den) := ratio magnitude
  let e : Int := binaryExponent num den * 30103 / 100000
  stripZeros 30 (searchShortest magnitude num den 25 (e + 2))

/-- The digits of a decimal with the point at `point` places from their left end. -/
def layOut (ds : List Char) (point : Int) : List Char :=
  if point ≤ 0 then '0' :: '.' :: (List.replicate (-point).toNat '0' ++ ds)
  else if ds.length ≤ point.toNat then ds ++ List.replicate (point.toNat - ds.length) '0'
  else ds.take point.toNat ++ '.' :: ds.drop point.toNat

/-- The sign in front of a printed number. -/
def signText (x : Double) : List Char := if x.isNegative then ['-'] else []

/-- The printed form without an exponent; a whole number ends in `.0`. -/
def positional (x : Double) : String :=
  if x.isNaN then "NaN"
  else if ¬ x.isFinite then String.ofList (x.signText ++ "inf".toList)
  else
    let body :=
      if x.magnitude = 0 then ['0']
      else
        let d := shortest x.magnitude
        let ds := Digits.decimal d.digits
        layOut ds (d.exponent + ds.length)
    String.ofList (x.signText ++ body ++ (if body.contains '.' then [] else ['.', '0']))

/-- The printed form with an exponent from `1e16` on and below `1e-5`; a whole number in
between ends in `.0`. -/
def compact (x : Double) : String :=
  if x.isNaN then ".nan"
  else if ¬ x.isFinite then String.ofList (x.signText ++ ".inf".toList)
  else if x.magnitude = 0 then String.ofList (x.signText ++ "0.0".toList)
  else
    let d := shortest x.magnitude
    let ds := Digits.decimal d.digits
    let point : Int := d.exponent + ds.length
    let body :=
      if -5 < point ∧ point ≤ 16 then
        let body := layOut ds point
        if body.contains '.' then body else body ++ ['.', '0']
      else
        let lead := match ds with
          | c :: more => if more.isEmpty then [c] else c :: '.' :: more
          | [] => []
        lead ++ 'e' :: (Digits.integer (point - 1)).toList
    String.ofList (x.signText ++ body)

end Double

end BoardFarm
