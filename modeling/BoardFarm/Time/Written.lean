import BoardFarm.Number.Digits
import BoardFarm.Text.Blank
import BoardFarm.Time.Calendar
import BoardFarm.Time.Timestamp

/-!
# Written timestamps

A timestamp is written as date, time of day and offset. Written out, the offset is always that
of universal time. On reading, blanks may stand before most parts and numbers need not be
filled up with zeros. The sixtieth second is the leap second behind the fifty-ninth.

* `Timestamp.text`: the written form.
* `Timestamp.parse?`: the moment that a text denotes.
-/

namespace BoardFarm.Timestamp

def daySeconds : Int := 86400

def secondNanos : Nat := 1000000000

/-! ## Writing -/

/-- A year takes four digits, and a sign where these do not suffice. -/
def writeYear (year : Int) : List Char :=
  if 0 ≤ year ∧ year ≤ 9999 then Digits.padded 4 year.toNat
  else (if year < 0 then '-' else '+') :: Digits.padded 4 year.natAbs

/-- A part of a second takes three, six or nine digits. -/
def writeFraction (nanos : Nat) : List Char :=
  if nanos = 0 then []
  else if nanos % 1000000 = 0 then '.' :: Digits.padded 3 (nanos / 1000000)
  else if nanos % 1000 = 0 then '.' :: Digits.padded 6 (nanos / 1000)
  else '.' :: Digits.padded 9 nanos

/-- The date and the time of day in universal time. -/
def text (t : Timestamp) : String :=
  let date := Date.ofDays (t.seconds / daySeconds)
  let clock := (t.seconds % daySeconds).toNat
  let second := clock % 60 + (if secondNanos ≤ t.nanos then 1 else 0)
  String.ofList (writeYear date.year ++ '-' :: Digits.padded 2 date.month ++
    '-' :: Digits.padded 2 date.day ++ 'T' :: Digits.padded 2 (clock / 3600) ++
    ':' :: Digits.padded 2 (clock / 60 % 60) ++ ':' :: Digits.padded 2 second ++
    writeFraction (t.nanos % secondNanos) ++ ['Z'])

/-! ## Reading -/

/-- A reader of the start of a text: the value and the rest. -/
abbrev Reader (α : Type) : Type := List Char → Option (α × List Char)

/-- A number of at most some digits. -/
def readNumber (width : Nat) : Reader Nat := fun cs =>
  let digits := (cs.take width).takeWhile Digits.isDigit
  (Digits.value 10 digits).map (fun n => (n, cs.drop digits.length))

/-- A number of one or two digits, behind blanks. -/
def readPart : Reader Nat := fun cs => readNumber 2 (Blank.trimStart cs)

/-- A year, behind blanks: four digits at most, or a sign and any number of digits. -/
def readYear : Reader Int := fun cs =>
  match Blank.trimStart cs with
  | '-' :: rest => (readNumber rest.length rest).map (fun (n, rest) => (-(n : Int), rest))
  | '+' :: rest => (readNumber rest.length rest).map (fun (n, rest) => ((n : Int), rest))
  | cs => (readNumber 4 cs).map (fun (n, rest) => ((n : Int), rest))

/-- The text behind a mark, before which blanks may stand. -/
def readMark (mark : Char) (cs : List Char) : Option (List Char) :=
  match Blank.trimStart cs with
  | c :: rest => if c = mark then some rest else none
  | [] => none

/-- The text behind the mark between date and time. -/
def readBetween : List Char → Option (List Char)
  | 'T' :: rest => some rest
  | 't' :: rest => some rest
  | ' ' :: rest => some rest
  | _ => none

/-- A part of a second in nanoseconds; digits behind the ninth do not count. -/
def readFraction : Reader Nat
  | '.' :: rest =>
    let digits := (rest.take 9).takeWhile Digits.isDigit
    (Digits.value 10 digits).map (fun n =>
      (n * Nat.pow 10 (9 - digits.length), (rest.drop digits.length).dropWhile Digits.isDigit))
  | cs => some (0, cs)

/-- Whether a text starts with the name of universal time in letters of any case. -/
def namesUniversalTime (cs : List Char) : Bool :=
  (cs.take 3).map Char.toUpper = ['U', 'T', 'C']

/-- The hours and minutes of an offset in seconds; colons and blanks may stand between them. -/
def readHoursMinutes : Reader Nat := fun cs =>
  match cs with
  | h₁ :: h₂ :: rest =>
    match rest.dropWhile (fun c => c == ':' || Blank.has c) with
    | m₁ :: m₂ :: rest =>
      match Digits.value 10 [h₁, h₂], Digits.value 10 [m₁, m₂] with
      | some hours, some minutes =>
        if hours < 24 ∧ minutes < 60 then some (hours * 3600 + minutes * 60, rest) else none
      | _, _ => none
    | _ => none
  | _ => none

/-- An offset from universal time in seconds. -/
def readOffset : Reader Int := fun cs =>
  if namesUniversalTime cs then some (0, cs.drop 3)
  else
    match cs with
    | 'Z' :: rest => some (0, rest)
    | 'z' :: rest => some (0, rest)
    | '+' :: rest => (readHoursMinutes rest).map (fun (n, rest) => ((n : Int), rest))
    | '-' :: rest => (readHoursMinutes rest).map (fun (n, rest) => (-(n : Int), rest))
    | '\u2212' :: rest => (readHoursMinutes rest).map (fun (n, rest) => (-(n : Int), rest))
    | _ => none

/-- The first and the last year whose dates can be named. -/
def firstYear : Int := -262143

@[inherit_doc firstYear] def lastYear : Int := 262142

/-- Whether a year can be named. -/
def isNamed (year : Int) : Bool := firstYear ≤ year && year ≤ lastYear

/-- The moment of a date and a time of day at an offset. -/
def ofParts (date : Date) (hour minute second nanos : Nat) (offset : Int) : Option Timestamp :=
  if date.isValid && isNamed date.year && hour < 24 && minute < 60 && second ≤ 60 then
    let clock := hour * 3600 + minute * 60 + min second 59
    let seconds := date.toDays * daySeconds + clock - offset
    if isNamed (Date.ofDays (seconds / daySeconds)).year then
      some ⟨seconds, if second = 60 then secondNanos + nanos else nanos⟩
    else none
  else none

/-- The moment that a text denotes. -/
def parse? (s : String) : Option Timestamp := do
  let (year, cs) ← readYear s.toList
  let (month, cs) ← readPart (← readMark '-' cs)
  let (day, cs) ← readPart (← readMark '-' cs)
  let (hour, cs) ← readPart (← readBetween cs)
  let (minute, cs) ← readPart (← readMark ':' cs)
  let (second, cs) ← readPart (← readMark ':' cs)
  let (nanos, cs) ← readFraction cs
  let (offset, cs) ← readOffset (Blank.trimStart cs)
  if (Blank.trimStart cs).isEmpty then
    ofParts ⟨year, month, day⟩ hour minute second nanos offset
  else none

end BoardFarm.Timestamp
