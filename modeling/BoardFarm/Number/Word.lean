import BoardFarm.Number.Digits

/-!
# Written 64-bit numbers

An unsigned number is written in decimal digits, with an optional plus sign. The first digit
that is none, or that makes the number too large, decides the fault.

* `Word.parse`: reads a number of 64 bits.
-/

namespace BoardFarm

/-- Why a text is no unsigned number of 64 bits. -/
inductive WordError where
  | empty
  | digit
  | tooLarge
  deriving DecidableEq, Repr

namespace WordError

def message : WordError → String
  | empty => "cannot parse integer from empty string"
  | digit => "invalid digit found in string"
  | tooLarge => "number too large to fit in target type"

end WordError

namespace Word

/-- Reads digits after the number already read. -/
def parseFrom (read : Nat) : List Char → Except WordError Nat
  | [] => .ok read
  | c :: rest =>
    match Digits.digit? 10 c with
    | none => .error .digit
    | some d =>
      if UInt64.size ≤ read * 10 + d then .error .tooLarge else parseFrom (read * 10 + d) rest

/-- Reads a number of 64 bits. -/
def parse (cs : List Char) : Except WordError Nat :=
  match cs with
  | [] => .error .empty
  | '+' :: [] => .error .digit
  | '+' :: rest => parseFrom 0 rest
  | cs => parseFrom 0 cs

end Word

end BoardFarm
