/-!
Moments in writing: date and time of day in universal time, from the seconds since the beginning of
the year 1970.
-/

namespace TableLexer.Moment

structure Date where
  year : Nat
  month : Nat
  day : Nat
deriving DecidableEq, Repr

/-- Number of days from the first of March of the year 0 to the first of January 1970. -/
def daysBefore1970 : Nat := 719468

/-- The day so many days after the first of January 1970.  Years are counted from March on, so that
a leap day is the last day of its year; they repeat after 400 years. -/
def dateOf (days : Nat) : Date :=
  let sinceMarch := days + daysBefore1970
  let cycle := sinceMarch / 146097
  let inCycle := sinceMarch % 146097
  let yearOfCycle := (inCycle - inCycle / 1460 + inCycle / 36524 - inCycle / 146096) / 365
  let dayOfYear := inCycle - (365 * yearOfCycle + yearOfCycle / 4 - yearOfCycle / 100)
  let monthFromMarch := (5 * dayOfYear + 2) / 153
  let day := dayOfYear - (153 * monthFromMarch + 2) / 5 + 1
  let month := if monthFromMarch < 10 then monthFromMarch + 3 else monthFromMarch - 9
  let year := 400 * cycle + yearOfCycle
  ⟨if month ≤ 2 then year + 1 else year, month, day⟩

/-- A number with leading zeros. -/
def padded (width n : Nat) : String :=
  let digits := toString n
  String.ofList (List.replicate (width - digits.length) '0') ++ digits

/-- A moment in writing, with the fraction of its second in nanoseconds. -/
def text (seconds nanoseconds : Nat) : String :=
  let date := dateOf (seconds / 86400)
  let second := seconds % 86400
  padded 4 date.year ++ "-" ++ padded 2 date.month ++ "-" ++ padded 2 date.day ++ "T" ++
    padded 2 (second / 3600) ++ ":" ++ padded 2 (second / 60 % 60) ++ ":" ++
    padded 2 (second % 60) ++ "." ++ padded 9 nanoseconds ++ "+00:00"

/-- The day after the last of February is a leap day in the year 2000, but not in the year 2100. -/
example : dateOf 11016 = ⟨2000, 2, 29⟩ ∧ dateOf 47541 = ⟨2100, 3, 1⟩ := by decide

end TableLexer.Moment
