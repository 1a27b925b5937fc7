import HeaderCatalog.Text.Numeral

set_option autoImplicit false

/-!
# Timestamps

A moment is a number of seconds since the start of 1970 in universal time.  It is written as a date and a time of day
with a `T` between them and a `Z` behind.  The date follows from the Gregorian calendar, extended to all years: an era
of 400 years has 146097 days, and a year that starts in March has its leap day at the end.
-/

namespace HeaderCatalog.Timestamp

/-- A day of the calendar. -/
structure Date where
  year : Int
  month : Nat
  day : Nat
  deriving DecidableEq, Repr

/-- The day that lies a number of days after the first of January 1970. -/
def dateOfDay (days : Int) : Date :=
  -- count from the first of March of the year zero
  let shifted := days + 719468
  let era := shifted / 146097
  let dayOfEra := (shifted % 146097).toNat
  let yearOfEra := (dayOfEra - dayOfEra / 1460 + dayOfEra / 36524 - dayOfEra / 146096) / 365
  let dayOfYear := dayOfEra - (365 * yearOfEra + yearOfEra / 4 - yearOfEra / 100)
  let monthFromMarch := (5 * dayOfYear + 2) / 153
  let day := dayOfYear - (153 * monthFromMarch + 2) / 5 + 1
  let month := if monthFromMarch < 10 then monthFromMarch + 3 else monthFromMarch - 9
  ⟨era * 400 + yearOfEra + (if month ≤ 2 then 1 else 0), month, day⟩

/-- A year: four digits, and a sign where four digits do not do. -/
def yearText (year : Int) : List Char :=
  if 0 ≤ year ∧ year ≤ 9999 then Numeral.padded 4 year.toNat
  else if 0 ≤ year then '+' :: Numeral.padded 4 year.toNat
  else '-' :: Numeral.padded 4 (-year).toNat

/-- The text of a moment. -/
def render (seconds : Int) : String :=
  let date := dateOfDay (seconds / 86400)
  let time := (seconds % 86400).toNat
  String.ofList
    (yearText date.year ++ '-' :: Numeral.padded 2 date.month ++ '-' :: Numeral.padded 2 date.day ++
      'T' :: Numeral.padded 2 (time / 3600) ++ ':' :: Numeral.padded 2 (time / 60 % 60) ++
      ':' :: Numeral.padded 2 (time % 60) ++ ['Z'])

example : dateOfDay 0 = ⟨1970, 1, 1⟩ := by decide
example : dateOfDay 19782 = ⟨2024, 2, 29⟩ := by decide
example : dateOfDay (-719162) = ⟨1, 1, 1⟩ := by decide

end HeaderCatalog.Timestamp
