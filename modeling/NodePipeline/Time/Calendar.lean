/-!
# The calendar

Dates of the Gregorian calendar, carried on to all years, and the number of a
day: the days that have passed since 1 January of year 0.
-/

namespace NodePipeline

structure Date where
  year : Int
  month : Nat
  day : Nat
deriving DecidableEq

namespace Date

def isLeapYear (year : Int) : Bool :=
  decide (year % 4 = 0 ∧ (year % 100 ≠ 0 ∨ year % 400 = 0))

def monthLengths (leap : Bool) : List Nat :=
  [31, if leap then 29 else 28, 31, 30, 31, 30, 31, 31, 30, 31, 30, 31]

/-- A month and a day that the calendar has. -/
def isValid (d : Date) : Bool :=
  decide (1 ≤ d.month ∧ 1 ≤ d.day)
    && decide (d.day ≤ (monthLengths (isLeapYear d.year)).getD (d.month - 1) 0)

/-- The days before 1 January of a year. Years from 0 on that are multiples of
four are leap years, but not those of a hundred, but those of four hundred. -/
def daysBeforeYear (year : Int) : Int :=
  365 * year + (year + 3) / 4 - (year + 99) / 100 + (year + 399) / 400

def number (d : Date) : Int :=
  let before := (monthLengths (isLeapYear d.year)).take (d.month - 1)
  daysBeforeYear d.year + (before.foldl (· + ·) 0 : Nat) + (d.day : Int) - 1

/-- The year of a day; an average year has 146097 / 400 days. -/
def yearOf (day : Int) : Int :=
  let guess := 400 * day / 146097
  if daysBeforeYear (guess + 1) ≤ day then guess + 1
  else if daysBeforeYear guess ≤ day then guess
  else guess - 1

/-- The month, counted from the given one, and the day in it. -/
def splitMonth : List Nat → Nat → Nat → Nat × Nat
  | [], month, day => (month, day + 1)
  | length :: rest, month, day =>
      if day < length then (month, day + 1) else splitMonth rest (month + 1) (day - length)

def ofNumber (day : Int) : Date :=
  let year := yearOf day
  let (month, d) :=
    splitMonth (monthLengths (isLeapYear year)) 1 (day - daysBeforeYear year).toNat
  ⟨year, month, d⟩

end Date

end NodePipeline
