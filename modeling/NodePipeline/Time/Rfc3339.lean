import NodePipeline.Time.Instant
import NodePipeline.Text.Characters
import NodePipeline.Binary64.Decimal

/-!
# Time stamps in RFC 3339

Instants are written in universal time, with as few groups of three digits of a
second as they need. Reading is more generous: any offset, blanks between the
parts, a space for the `T`, single digits, years with a sign.
-/

namespace NodePipeline.Rfc3339

/-! ## Writing -/

/-- At least `width` digits. -/
def padded (width n : Nat) : String :=
  let digits := toString n
  String.ofList (List.replicate (width - digits.length) '0') ++ digits

/-- Years beyond four digits carry a sign. -/
def yearText (year : Int) : String :=
  if 0 ≤ year ∧ year ≤ 9999 then padded 4 year.toNat
  else (if year < 0 then "-" else "+") ++ padded 4 year.natAbs

def fractionText (nanos : Nat) : String :=
  if nanos = 0 then ""
  else if nanos % 1000000 = 0 then "." ++ padded 3 (nanos / 1000000)
  else if nanos % 1000 = 0 then "." ++ padded 6 (nanos / 1000)
  else "." ++ padded 9 nanos

def write (t : Instant) : String :=
  let c := t.civil
  yearText c.date.year ++ "-" ++ padded 2 c.date.month ++ "-" ++ padded 2 c.date.day
    ++ "T" ++ padded 2 c.hour ++ ":" ++ padded 2 c.minute ++ ":" ++ padded 2 c.second
    ++ fractionText c.nanos ++ "Z"

/-! ## Reading -/

/-- Between one and `most` digits. -/
def readNumber (most : Nat) (cs : List Char) : Option (Nat × List Char) :=
  let digits := (cs.take most).takeWhile Char.isDigit
  if digits.isEmpty then none
  else some (Binary64.natOfDigits digits, cs.drop digits.length)

/-- A number in a range, after blanks. -/
def readField (low high : Nat) (cs : List Char) : Option (Nat × List Char) := do
  let (n, rest) ← readNumber 2 (Text.trimLeft cs)
  if low ≤ n ∧ n ≤ high then some (n, rest) else none

/-- A year has up to four digits, or a sign and any number of them. -/
def readYear (cs : List Char) : Option (Int × List Char) :=
  match Text.trimLeft cs with
  | '-' :: rest => (readNumber rest.length rest).map fun (n, rest) => (-(n : Int), rest)
  | '+' :: rest => (readNumber rest.length rest).map fun (n, rest) => ((n : Int), rest)
  | rest => (readNumber 4 rest).map fun (n, rest) => ((n : Int), rest)

/-- A separator, after blanks. -/
def readMark (mark : Char) (cs : List Char) : Option (List Char) :=
  match Text.trimLeft cs with
  | c :: rest => if c = mark then some rest else none
  | [] => none

/-- An optional fraction of a second; digits beyond the ninth are passed over. -/
def readFraction (cs : List Char) : Option (Nat × List Char) :=
  match cs with
  | '.' :: rest =>
      let digits := rest.takeWhile Char.isDigit
      if digits.isEmpty then none
      else
        let kept := digits.take 9
        some (Binary64.natOfDigits kept * Nat.pow 10 (9 - kept.length), rest.drop digits.length)
  | cs => some (0, cs)

def digitValue? (c : Char) : Option Nat := if c.isDigit then some (c.toNat - 48) else none

/-- Hours and minutes of two digits each, with colons and blanks between them. -/
def readHoursMinutes (cs : List Char) : Option (Nat × List Char) :=
  match cs with
  | a :: b :: rest => do
      let hours := 10 * (← digitValue? a) + (← digitValue? b)
      match rest.dropWhile fun c => c == ':' || Text.isBlank c with
      | c :: d :: rest => do
          let tens ← digitValue? c
          let minutes := 10 * tens + (← digitValue? d)
          if tens < 6 then some (3600 * hours + 60 * minutes, rest) else none
      | _ => none
  | _ => none

/-- An offset from universal time, in seconds. -/
def readOffset (cs : List Char) : Option (Int × List Char) :=
  match cs with
  | [] => none
  | c :: rest =>
      if (cs.take 3).map Char.toUpper = ['U', 'T', 'C'] then some (0, cs.drop 3)
      else if c = 'Z' ∨ c = 'z' then some (0, rest)
      else if c = '+' then (readHoursMinutes rest).map fun (n, rest) => ((n : Int), rest)
      else if c = '-' ∨ c.toNat = 0x2212 then
        (readHoursMinutes rest).map fun (n, rest) => (-(n : Int), rest)
      else none

/-- The years that instants are kept for. -/
def isKeptYear (year : Int) : Bool := decide (-262143 ≤ year ∧ year ≤ 262142)

def readDate (cs : List Char) : Option (Date × List Char) := do
  let (year, cs) ← readYear cs
  let (month, cs) ← readField 1 12 (← readMark '-' cs)
  let (day, cs) ← readField 1 31 (← readMark '-' cs)
  let date : Date := ⟨year, month, day⟩
  if date.isValid && isKeptYear year then some (date, cs) else none

def readTime (date : Date) (cs : List Char) : Option (Civil × List Char) := do
  let (hour, cs) ← readField 0 23 cs
  let (minute, cs) ← readField 0 59 (← readMark ':' cs)
  let (second, cs) ← readField 0 60 (← readMark ':' cs)
  let (nanos, cs) ← readFraction cs
  return (⟨date, hour, minute, second, nanos⟩, Text.trimLeft cs)

def read? (text : String) : Option Instant := do
  let (date, cs) ← readDate text.toList
  match cs with
  | c :: rest =>
      if c = 'T' ∨ c = 't' ∨ c = ' ' then
        let (civil, rest) ← readTime date rest
        let (offset, rest) ← readOffset rest
        let instant := civil.toInstant offset
        if (Text.trimLeft rest).isEmpty && decide (offset.natAbs < 86400)
            && isKeptYear instant.civil.date.year then
          some instant
        else none
      else none
  | [] => none

end NodePipeline.Rfc3339
