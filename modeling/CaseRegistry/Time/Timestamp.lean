import CaseRegistry.Text.Blank
import CaseRegistry.Text.Decimal
import CaseRegistry.Time.Calendar

/-!
Instants of time, and the RFC 3339 texts that stand for them. An instant is written in UTC with
`Z`, its fraction of a second in none, three, six or nine digits, whichever is the least that
loses nothing. It is read with any offset from UTC, and from texts that take the rules of spelling
less strictly; of a longer fraction the first nine digits count.
-/
namespace CaseRegistry

/-- Nanoseconds since 1970-01-01T00:00:00Z. -/
structure Timestamp where
  nanos : Int
deriving DecidableEq

namespace Timestamp

def epoch : Timestamp := ⟨0⟩

instance : Inhabited Timestamp := ⟨epoch⟩

/-- The day number of 1 January 1970. -/
def epochDay : Int := 719528

def nanosPerSecond : Nat := 1000000000

def secondsPerDay : Nat := 86400

/-- The instant at a second of a UTC day, and nanoseconds past it. -/
def ofDay (day : Int) (second : Int) (nanos : Nat) : Timestamp :=
  ⟨((day - epochDay) * secondsPerDay + second) * nanosPerSecond + nanos⟩

/-! ### Writing -/

/-- A year of four digits, or with its sign where it takes more or lies before the year 0. -/
def writeYear (year : Int) : List Char :=
  if year < 0 then '-' :: Decimal.padded 4 year.natAbs
  else if year ≤ 9999 then Decimal.padded 4 year.toNat
  else '+' :: Decimal.padded 4 year.toNat

def writeFraction (nanos : Nat) : List Char :=
  if nanos = 0 then []
  else if nanos % 1000000 = 0 then '.' :: Decimal.padded 3 (nanos / 1000000)
  else if nanos % 1000 = 0 then '.' :: Decimal.padded 6 (nanos / 1000)
  else '.' :: Decimal.padded 9 nanos

/-- Whole seconds since the epoch, rounded down. -/
def seconds (t : Timestamp) : Int := t.nanos / nanosPerSecond

/-- The date in UTC. -/
def date (t : Timestamp) : Date := Date.ofDay (t.seconds / secondsPerDay + epochDay)

def toChars (t : Timestamp) : List Char :=
  let date := t.date
  let second := (t.seconds % secondsPerDay).toNat
  writeYear date.year ++ '-' :: Decimal.padded 2 date.month ++ '-' :: Decimal.padded 2 date.day
    ++ 'T' :: Decimal.padded 2 (second / 3600) ++ ':' :: Decimal.padded 2 (second / 60 % 60)
    ++ ':' :: Decimal.padded 2 (second % 60)
    ++ writeFraction (t.nanos % nanosPerSecond).toNat ++ ['Z']

def toString (t : Timestamp) : String := String.ofList t.toChars

/-! ### Reading

Each reader takes a piece off the front of a text and returns what follows. Blanks may stand before
a number, before a mark between numbers, before the offset and at the end. A number may have fewer
digits than are written for it. -/

def skipBlanks (cs : List Char) : List Char := cs.dropWhile Text.isWhiteSpace

/-- One of the accepted characters, at once. -/
def expect? (accepted : List Char) : List Char → Option (List Char)
  | c :: rest => if c ∈ accepted then some rest else none
  | [] => none

/-- A mark, after any blanks. -/
def readMark? (mark : Char) (cs : List Char) : Option (List Char) := expect? [mark] (skipBlanks cs)

/-- A number of one or two digits, after any blanks. -/
def readPart? (cs : List Char) : Option (Nat × List Char) :=
  Decimal.takeUpTo? 2 (skipBlanks cs)

/-- A year of up to four digits, or of any number of digits behind a sign, after any blanks. -/
def readYear? (cs : List Char) : Option (Int × List Char) :=
  match skipBlanks cs with
  | '+' :: rest => signed 1 rest
  | '-' :: rest => signed (-1) rest
  | rest => (Decimal.takeUpTo? 4 rest).map fun (n, rest) => ((n : Int), rest)
where
  signed (sign : Int) (cs : List Char) : Option (Int × List Char) :=
    (Decimal.ofDigits? (cs.takeWhile Char.isDigit)).map fun n =>
      (sign * n, cs.dropWhile Char.isDigit)

def readDate? (cs : List Char) : Option (Date × List Char) := do
  let (year, cs) ← readYear? cs
  let cs ← readMark? '-' cs
  let (month, cs) ← readPart? cs
  let cs ← readMark? '-' cs
  let (day, cs) ← readPart? cs
  let date := Date.mk year month day
  if date.IsValid ∧ date.IsInRange then some (date, cs) else none

/-- Hours, minutes and seconds of a day, in seconds. -/
def readClock? (cs : List Char) : Option (Nat × List Char) := do
  let (hour, cs) ← readPart? cs
  let cs ← readMark? ':' cs
  let (minute, cs) ← readPart? cs
  let cs ← readMark? ':' cs
  let (second, cs) ← readPart? cs
  if hour < 24 ∧ minute < 60 ∧ second < 60 then some (3600 * hour + 60 * minute + second, cs)
  else none

/-- Nanoseconds past the second, none if there is no fraction. -/
def readFraction? : List Char → Option (Nat × List Char)
  | '.' :: cs =>
    let run := (cs.takeWhile Char.isDigit).take 9
    (Decimal.ofDigits? run).map fun n => (n * Nat.pow 10 (9 - run.length), cs.dropWhile Char.isDigit)
  | cs => some (0, cs)

/-- Seconds by which local time is ahead of UTC: none for `Z` and for the letters of UTC, else a sign
and two digits each for hours and minutes, with or without colons and blanks between them. -/
def readOffset? (cs : List Char) : Option (Int × List Char) :=
  if (cs.take 3).map Char.toUpper = ['U', 'T', 'C'] then some (0, cs.drop 3)
  else match cs with
    | 'Z' :: rest | 'z' :: rest => some (0, rest)
    | '+' :: rest => (magnitude? rest).map fun (seconds, rest) => ((seconds : Int), rest)
    | '-' :: rest | '\u2212' :: rest =>
      (magnitude? rest).map fun (seconds, rest) => (-(seconds : Int), rest)
    | _ => none
where
  magnitude? (cs : List Char) : Option (Nat × List Char) := do
    let (hours, cs) ← Decimal.takeFixed? 2 cs
    let (minutes, cs) ← Decimal.takeFixed? 2 (cs.dropWhile fun c => c = ':' ∨ Text.isWhiteSpace c)
    if hours < 24 ∧ minutes < 60 then some (3600 * hours + 60 * minutes, cs) else none

/-- Both the local date and the date in UTC must be in range. -/
def ofChars? (cs : List Char) : Option Timestamp := do
  let (date, cs) ← readDate? cs
  let cs ← expect? ['T', 't', ' '] cs
  let (second, cs) ← readClock? cs
  let (nanos, cs) ← readFraction? cs
  let (offset, cs) ← readOffset? (skipBlanks cs)
  let t := ofDay date.toDay (second - offset) nanos
  if skipBlanks cs = [] ∧ t.date.IsInRange then some t else none

def ofString? (text : String) : Option Timestamp := ofChars? text.toList

end Timestamp
end CaseRegistry
