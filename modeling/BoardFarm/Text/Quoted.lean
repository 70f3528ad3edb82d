import BoardFarm.Text.Unprintable

/-!
# Quoted texts in messages

A text that a message cites stands between double quotes. Quotes, backslashes, tabs, line
breaks and the null character have short escapes; a character without a printed form of its
own is written by its code point in hexadecimal digits.

* `Quoted.cite`: the cited form of a text.
-/

namespace BoardFarm.Quoted

/-- The written form of a code point. -/
def codePoint (c : Char) : List Char :=
  ['\\', 'u', '\x7b'] ++ Nat.toDigits 16 c.toNat ++ ['\x7d']

/-- The written form of one character. -/
def encodeChar (c : Char) : List Char :=
  match c with
  | '\x00' => ['\\', '0']
  | '\t' => ['\\', 't']
  | '\r' => ['\\', 'r']
  | '\n' => ['\\', 'n']
  | '"' => ['\\', '"']
  | '\\' => ['\\', '\\']
  | c => if Unprintable.has c then codePoint c else [c]

/-- The cited form of a text. -/
def cite (s : String) : String :=
  String.ofList ('"' :: (s.toList.flatMap encodeChar ++ ['"']))

end BoardFarm.Quoted
