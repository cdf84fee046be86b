/-! Calendar dates and moments, as front matter brings them in.
-/
namespace MailMerge

/-- A calendar date. -/
structure Date where
  year : Nat
  month : Nat
  day : Nat
  deriving DecidableEq, Repr, Inhabited

/-- A date with a time of day, and an offset from universal time in microseconds when the
moment has a zone. -/
structure Moment where
  date : Date
  hour : Nat := 0
  minute : Nat := 0
  second : Nat := 0
  micro : Nat := 0
  offset : Option Int := none
  deriving DecidableEq, Repr, Inhabited

namespace Date

/-- Every fourth year is a leap year, of the centuries only every fourth. -/
def isLeap (year : Nat) : Bool :=
  year % 4 == 0 && (year % 100 != 0 || year % 400 == 0)

/-- The number of days of a month. -/
def monthLength (year month : Nat) : Nat :=
  if month == 2 then (if isLeap year then 29 else 28)
  else if month == 4 || month == 6 || month == 9 || month == 11 then 30
  else 31

/-- A date of the calendar, from the year 1 to the year 9999. -/
def isValid (d : Date) : Bool :=
  1 ≤ d.year && d.year ≤ 9999 && 1 ≤ d.month && d.month ≤ 12 &&
    1 ≤ d.day && d.day ≤ monthLength d.year d.month

/-- Days from the first day of the year 1 up to the first day of a year. -/
def daysBefore (year : Nat) : Nat :=
  let y := year - 1
  y * 365 + y / 4 - y / 100 + y / 400

/-- The number of a day, counted from the first day of the year 1 as 1. -/
def ordinal (d : Date) : Nat :=
  let months := List.range (d.month - 1)
  months.foldl (fun days m => days + monthLength d.year (m + 1)) (daysBefore d.year) + d.day

/-- A natural number with leading zeros up to a width. -/
def padded (width n : Nat) : String :=
  let digits := toString n
  String.ofList (List.replicate (width - digits.length) '0') ++ digits

/-- Year, month and day with dashes. -/
def text (d : Date) : String :=
  padded 4 d.year ++ "-" ++ padded 2 d.month ++ "-" ++ padded 2 d.day

/-- Day, month and year with slashes; the year is not padded. -/
def slashed (d : Date) : String :=
  padded 2 d.day ++ "/" ++ padded 2 d.month ++ "/" ++ toString d.year

/-- The date as messages show it. -/
def shown (d : Date) : String :=
  s!"datetime.date({d.year}, {d.month}, {d.day})"

end Date

namespace Moment

/-- A signed offset as hours and minutes, with seconds and microseconds when they are not
zero. -/
def offsetText (offset : Int) : String :=
  let size := offset.natAbs
  let seconds := size / 1000000
  let micro := size % 1000000
  let base := (if offset < 0 then "-" else "+") ++ Date.padded 2 (seconds / 3600) ++ ":" ++
    Date.padded 2 (seconds / 60 % 60)
  let base := if seconds % 60 != 0 || micro != 0 then base ++ ":" ++ Date.padded 2 (seconds % 60)
    else base
  if micro != 0 then base ++ "." ++ Date.padded 6 micro else base

/-- Date, a separating character, time, and the offset if there is one. -/
def textWith (separator : String) (t : Moment) : String :=
  let time := Date.padded 2 t.hour ++ ":" ++ Date.padded 2 t.minute ++ ":" ++
    Date.padded 2 t.second
  let time := if t.micro != 0 then time ++ "." ++ Date.padded 6 t.micro else time
  t.date.text ++ separator ++ time ++ (t.offset.map offsetText).getD ""

/-- An offset as messages show it: days are floored, so only they can be negative. -/
def offsetShown (offset : Int) : String :=
  if offset == 0 then "datetime.timezone.utc"
  else
    let days := offset.fdiv 86400000000
    let rest := (offset - days * 86400000000).toNat
    let parts := (if days != 0 then ["days=" ++ toString days] else []) ++
      (if rest / 1000000 != 0 then ["seconds=" ++ toString (rest / 1000000)] else []) ++
      (if rest % 1000000 != 0 then ["microseconds=" ++ toString (rest % 1000000)] else [])
    "datetime.timezone(datetime.timedelta(" ++ String.intercalate ", " parts ++ "))"

/-- The moment as messages show it: seconds and microseconds of zero are left out. -/
def shown (t : Moment) : String :=
  let tail := if t.micro != 0 then [t.second, t.micro] else if t.second != 0 then [t.second] else []
  let parts := ([t.date.year, t.date.month, t.date.day, t.hour, t.minute] ++ tail).map toString
  let zone := match t.offset with
    | some offset => ", tzinfo=" ++ offsetShown offset
    | none => ""
  "datetime.datetime(" ++ String.intercalate ", " parts ++ zone ++ ")"

/-- Microseconds since the start of the year 1, in the moment's own zone. -/
def localMicros (t : Moment) : Int :=
  (((t.date.ordinal * 24 + t.hour) * 60 + t.minute) * 60 + t.second : Nat) * 1000000 + t.micro

/-- Two moments are the same when both have a zone and name the same instant, or neither has
one and all their fields agree. -/
def same (s t : Moment) : Bool :=
  match s.offset, t.offset with
  | some a, some b => s.localMicros - a == t.localMicros - b
  | none, none => s.localMicros == t.localMicros
  | _, _ => false

end Moment
end MailMerge
