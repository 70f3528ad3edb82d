/-!
# Blank characters

The characters with the Unicode property `White_Space`.

* `Blank.has`: whether a character is blank.
* `Blank.trimStart`: a text behind the blanks at its start.
-/

namespace BoardFarm.Blank

/-- The blank code points, as ranges. -/
def ranges : List (Nat × Nat) :=
  [(0x09, 0x0D), (0x20, 0x20), (0x85, 0x85), (0xA0, 0xA0), (0x1680, 0x1680), (0x2000, 0x200A),
   (0x2028, 0x2029), (0x202F, 0x202F), (0x205F, 0x205F), (0x3000, 0x3000)]

def has (c : Char) : Bool := ranges.any (fun r => r.1 ≤ c.toNat && c.toNat ≤ r.2)

/-- A text behind the blanks at its start. -/
def trimStart (cs : List Char) : List Char := cs.dropWhile has

end BoardFarm.Blank
