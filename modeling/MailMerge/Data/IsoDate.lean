import MailMerge.Data.Date

/-! Reading moments in their standard notation: a calendar date or a week date, basic or
extended, then optionally any one character and a time of day with an offset.
-/
namespace MailMerge.IsoDate

/-- Exactly `n` decimal digits at the start of a text, and the rest. -/
def digits? : Nat → Nat → List Char → Option (Nat × List Char)
  | 0, acc, text => some (acc, text)
  | n + 1, acc, c :: text =>
    if c.isDigit then digits? n (acc * 10 + (c.toNat - '0'.toNat)) text else none
  | _ + 1, _, [] => none

/-- The length of the date that starts a text. A year and a week may be followed by the number
of a day; a run of digits after them is read so that the time has whole pairs. -/
def dateLength? (text : List Char) : Option Nat :=
  let length := text.length
  if length == 7 then some 7
  else if text[4]? == some '-' then
    if text[5]? == some 'W' then
      if length < 8 then none
      else if 8 < length && text[8]? == some '-' then
        if length == 9 then none
        else if 10 < length && (text[10]?.any Char.isDigit) then some 8
        else some 10
      else some 8
    else some 10
  else if text[4]? == some 'W' then
    let stop := 7 + ((text.drop 7).takeWhile Char.isDigit).length
    if stop < 9 then some stop else if stop % 2 == 0 then some 7 else some 8
  else some 8

/-- The weekday of a day number, Monday as zero. -/
def weekday (ordinal : Nat) : Nat :=
  (ordinal + 6) % 7

/-- The date of a day number. -/
def ofOrdinal? (n : Int) : Option Date := do
  if n < 1 then none
  let n := n.toNat
  let year := (n - 1) / 366 + 1
  let year ← (List.range 29).findSome? fun k =>
    if n ≤ Date.daysBefore (year + k + 1) then some (year + k) else none
  if 9999 < year then none
  let rest := n - Date.daysBefore year
  (List.range 12).findSome? fun k =>
    let start := (Date.mk year (k + 1) 1).ordinal - Date.daysBefore year
    if start ≤ rest && rest < start + Date.monthLength year (k + 1) then
      some ⟨year, k + 1, rest - start + 1⟩
    else none

/-- The date of a year, week and weekday. The first week is the one with the first Thursday;
a year has a week 53 when it starts on a Thursday, or on a Wednesday in a leap year. -/
def ofWeek? (year week day : Nat) : Option Date :=
  let first := (Date.mk year 1 1).ordinal
  let start := weekday first
  let long := start == 3 || (start == 2 && Date.isLeap year)
  if year < 1 || week < 1 || 53 < week || (week == 53 && !long) || day < 1 || 7 < day then none
  else
    let monday : Int := if start ≤ 3 then (first : Int) - start else first - start + 7
    ofOrdinal? (monday + ((week - 1) * 7 + (day - 1) : Nat))

/-- Reads a date. -/
def date? (text : List Char) : Option Date := do
  let (year, rest) ← digits? 4 0 text
  let (dashed, rest) := match rest with
    | '-' :: rest => (true, rest)
    | rest => (false, rest)
  let dash (rest : List Char) : Option (List Char) :=
    if dashed then (match rest with | '-' :: rest => some rest | _ => none) else some rest
  match rest with
  | 'W' :: rest =>
    let (week, rest) ← digits? 2 0 rest
    if rest.isEmpty then ofWeek? year week 1
    else
      let rest ← dash rest
      let (day, _) ← digits? 1 0 rest
      ofWeek? year week day
  | rest =>
    let (month, rest) ← digits? 2 0 rest
    let rest ← dash rest
    let (day, _) ← digits? 2 0 rest
    let d : Date := ⟨year, month, day⟩
    if d.isValid then some d else none

/-- A time of day as read: its fields, and whether anything was left over. -/
structure Clock where
  hour : Nat
  minute : Nat
  second : Nat
  micro : Nat
  leftover : Bool

/-- Reads the fraction of a second: six digits count, more are skipped. -/
def fraction? (text : List Char) (follows : Bool) : Option (Nat × Bool) := do
  let width := min 6 text.length
  let (value, rest) ← digits? width 0 text
  let rest := rest.dropWhile Char.isDigit
  some (value * Nat.pow 10 (6 - width), !rest.isEmpty || follows)

/-- Reads the remaining pairs of a time of day, `fields` being those read before. The pairs are
separated by colons or not at all. -/
def pairs? (fuel : Nat) (fields : List Nat) (colons : Bool) (text : List Char) (follows : Bool) :
    Option (List Nat × Nat × Bool) := do
  match fuel with
  | 0 =>
    let (micro, leftover) ← fraction? text follows
    some (fields, micro, leftover)
  | fuel + 1 =>
    let (value, rest) ← digits? 2 0 text
    let fields := fields ++ [value]
    match rest with
    | [] => some (fields, 0, follows)
    | [c] => if c.toNat < 0x80 then some (fields, 0, true) else none
    | c :: more =>
      let colons := if fields.length == 1 then c == ':' else colons
      if colons && c == ':' then pairs? fuel fields colons more follows
      else if c == '.' || c == ',' then
        let (micro, leftover) ← fraction? more follows
        some (fields, micro, leftover)
      else if !colons then pairs? fuel fields colons rest follows
      else none

/-- Reads a time of day; `follows` says that more text comes after it. -/
def clock? (text : List Char) (follows : Bool) : Option Clock := do
  let (fields, micro, leftover) ← pairs? 3 [] true text follows
  some ⟨fields[0]?.getD 0, fields[1]?.getD 0, fields[2]?.getD 0, micro, leftover⟩

/-- Microseconds of a time of day. -/
def Clock.seconds (c : Clock) : Nat :=
  c.hour * 3600 + c.minute * 60 + c.second

/-- Reads a time of day with an optional offset, which is less than a day. -/
def time? (text : List Char) : Option (Clock × Option Int) := do
  let isZone (c : Char) : Bool := c == '+' || c == '-' || c == 'Z'
  let body := text.takeWhile (!isZone ·)
  match text.drop body.length with
  | [] =>
    let clock ← clock? body false
    if clock.leftover then none else some (clock, none)
  | sign :: zone =>
    let clock ← clock? body true
    if sign == 'Z' then
      if zone.isEmpty then some (clock, some 0) else none
    else
      let shift ← clock? zone false
      if shift.leftover then none
      else
        let size : Int := if shift.seconds == 0 then 0 else shift.seconds * 1000000 + shift.micro
        if 86400000000 ≤ size then none
        else some (clock, some (if sign == '-' then -size else size))

/-- Reads a moment. -/
def moment? (text : List Char) : Option Moment := do
  let length ← dateLength? text
  let date ← date? (text.take length)
  match text.drop length with
  | [] => some { date }
  | _ :: time =>
    let (clock, offset) ← time? time
    if clock.hour < 24 && clock.minute < 60 && clock.second < 60 then
      some ⟨date, clock.hour, clock.minute, clock.second, clock.micro, offset⟩
    else none

end MailMerge.IsoDate
