/-!
# Base 32 with a gapped alphabet

Digits are written with the alphabet `0-9A-Z` without `I`, `L`, `O` and `U`, most
significant first. Reading takes either letter case and keeps the low bits of a number that
does not fit.

* `Base32.digitValue?_digit`: reading a written digit gives it back.
* `Base32.encode_inj`: numbers that fit are told apart by their digits.
-/

namespace BoardFarm.Base32

/-- The thirty-two digits in increasing order of value and of code point. -/
def alphabet : List Char := "0123456789ABCDEFGHJKMNPQRSTVWXYZ".toList

/-- The written form of a digit. -/
def digit (d : Nat) : Char := alphabet.getD (d % 32) '0'

/-- The position of the first element equal to `c`. -/
def position (c : Char) : List Char → Option Nat
  | [] => none
  | a :: rest => if a = c then some 0 else (position c rest).map (· + 1)

/-- The value of a digit, in either letter case. -/
def digitValue? (c : Char) : Option Nat := position c.toUpper alphabet

/-- The last `count` base 32 digits of a number, most significant first. -/
def encode : (count : Nat) → Nat → List Char
  | 0, _ => []
  | count + 1, n => encode count (n / 32) ++ [digit n]

/-- The number written by a list of digits, after the digits already read. -/
def decodeFrom (read : Nat) : List Char → Option Nat
  | [] => some read
  | c :: rest =>
    match digitValue? c with
    | none => none
    | some d => decodeFrom (read * 32 + d) rest

/-- The number written by a list of digits. -/
def decode (cs : List Char) : Option Nat := decodeFrom 0 cs

theorem digitValue?_digit (d : Nat) : digitValue? (digit d) = some (d % 32) := by
  have h : ∀ k : Fin 32, digitValue? (digit k.val) = some k.val := by decide
  have := h ⟨d % 32, Nat.mod_lt _ (by decide)⟩
  simpa [digit] using this

theorem length_encode (count n : Nat) : (encode count n).length = count := by
  induction count generalizing n with
  | zero => rfl
  | succ count ih => simp [encode, ih]

theorem digit_inj {d e : Nat} (h : digit d = digit e) : d % 32 = e % 32 := by
  have hd := digitValue?_digit d
  rw [h, digitValue?_digit e] at hd
  exact (Option.some.inj hd).symm

/-- Numbers that fit are told apart by their digits. -/
theorem encode_inj {count n m : Nat} (hn : n < 1 <<< (5 * count)) (hm : m < 1 <<< (5 * count))
    (h : encode count n = encode count m) : n = m := by
  induction count generalizing n m with
  | zero =>
    have hn' : n < 1 := hn
    have hm' : m < 1 := hm
    omega
  | succ count ih =>
    obtain ⟨hfront, hlast⟩ := List.append_inj' h rfl
    have hdigit : n % 32 = m % 32 := digit_inj (List.singleton_inj.mp hlast)
    rw [Nat.mul_succ, Nat.shiftLeft_add] at hn hm
    have hquot : n / 32 = m / 32 :=
      ih (Nat.div_lt_of_lt_mul (by omega)) (Nat.div_lt_of_lt_mul (by omega)) hfront
    omega

end BoardFarm.Base32
