/-
  DependencyScope.Toml.Datetime — dates and times of TOML.

  A date, a time, or a date with a time and perhaps an offset from universal time.  The normal form
  separates date and time by `T`, writes universal time as `Z`, and drops zeros at the end of a
  fraction of a second, of which nine digits count.

  Main definitions:
    * `Reader.datetime` — takes a date, a time or both, and gives the normal form.
-/
import DependencyScope.Toml.Number

namespace DependencyScope.Toml.Reader

/-- Takes exactly `count` decimal digits that write a number between `low` and `high`. -/
def ranged (count low high : Nat) : Reader (String × Nat) := do
  let text ← (List.range count).mapM fun _ => next
  if text.all Char.isDigit then
    let value := valueOf 10 text
    if low ≤ value && value ≤ high then return (String.ofList text, value) else failure
  else failure

/-- How many days a month has. -/
def daysIn (year month : Nat) : Nat :=
  match month with
  | 2 => if year % 4 = 0 && (year % 100 ≠ 0 || year % 400 = 0) then 29 else 28
  | 4 | 6 | 9 | 11 => 30
  | _ => 31

/-- Takes a date. -/
def date : Reader String := do
  let (yearText, year) ← ranged 4 0 9999
  expect "-"
  let (monthText, month) ← ranged 2 1 12
  expect "-"
  let (dayText, day) ← ranged 2 1 31
  if daysIn year month < day then failure
  return yearText ++ "-" ++ monthText ++ "-" ++ dayText

/-- The normal form of a fraction of a second. -/
def fractionText (text : List Char) : String :=
  let kept := ((text.take 9).reverse.dropWhile (· = '0')).reverse
  if kept.isEmpty then "" else "." ++ String.ofList kept

/-- Takes a fraction of a second, after its point. -/
def secondFraction : Reader String := do
  let text ← takeWhile Char.isDigit
  if text.isEmpty then failure
  return fractionText text

/-- Takes a time of day. -/
def time : Reader String := do
  let (hour, _) ← ranged 2 0 23
  expect ":"
  let (minute, _) ← ranged 2 0 59
  expect ":"
  let (second, _) ← ranged 2 0 60
  let fraction ← attempt do
    expect "."
    secondFraction
  return hour ++ ":" ++ minute ++ ":" ++ second ++ fraction.getD ""

/-- Takes an offset from universal time. -/
def offset : Reader String := do
  if (← accept "Z") || (← accept "z") then return "Z"
  let negative ← if ← accept "-" then pure true else do
    expect "+"
    pure false
  let (hour, hours) ← ranged 2 0 23
  expect ":"
  let (minute, minutes) ← ranged 2 0 59
  return (if negative && hours + minutes ≠ 0 then "-" else "+") ++ hour ++ ":" ++ minute

/-- Takes what may follow a date: a time, and perhaps an offset. -/
def timeAfterDate : Reader String := do
  unless (← accept "T") || (← accept "t") || (← accept " ") do failure
  let time ← time
  return "T" ++ time ++ (← attempt offset).getD ""

/-- Takes a date, a time or both. -/
def datetime : Reader Toml :=
  orElse
    (do
      let date ← date
      return .datetime (date ++ (← attempt timeAfterDate).getD ""))
    (do return .datetime (← time))

end DependencyScope.Toml.Reader
