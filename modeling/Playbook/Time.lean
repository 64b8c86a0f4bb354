import Playbook.Json.Parser

/-! # Points in time

A moment of the proleptic Gregorian calendar in UTC, read from and written in the form
`2024-01-02T03:04:05.250+02:00`.
-/

namespace Playbook

/-- Seconds since the start of 1970 in UTC, and nanoseconds; a leap second has more than a second of
them. -/
structure Time where
  seconds : Int
  nanos : Nat
  deriving DecidableEq, Repr, Inhabited

namespace Time

/-- The nanoseconds of a second. -/
def secondNanos : Nat := 1000000000

/-! ## Calendar -/

/-- The days from the start of 1970 to a date. -/
def daysOfDate (year : Int) (month day : Nat) : Int :=
  let y := if month ≤ 2 then year - 1 else year
  let era := y.fdiv 400
  let yoe := y - era * 400
  let mp : Int := (((month + 9) % 12 : Nat) : Int)
  let doy := (153 * mp + 2).fdiv 5 + (day : Int) - 1
  let doe := yoe * 365 + yoe.fdiv 4 - yoe.fdiv 100 + doy
  era * 146097 + doe - 719468

/-- The date of a day counted from the start of 1970. -/
def dateOfDays (days : Int) : Int × Nat × Nat :=
  let z := days + 719468
  let era := z.fdiv 146097
  let doe := z - era * 146097
  let yoe := (doe - doe.fdiv 1460 + doe.fdiv 36524 - doe.fdiv 146096).fdiv 365
  let doy := doe - (365 * yoe + yoe.fdiv 4 - yoe.fdiv 100)
  let mp := (5 * doy + 2).fdiv 153
  let day := doy - (153 * mp + 2).fdiv 5 + 1
  let month := if mp < 10 then mp + 3 else mp - 9
  let year := yoe + era * 400 + (if month ≤ 2 then 1 else 0)
  (year, month.toNat, day.toNat)

def isLeap (year : Nat) : Bool := year % 4 == 0 && (year % 100 != 0 || year % 400 == 0)

def daysInMonth (year month : Nat) : Nat :=
  if month = 2 then if isLeap year then 29 else 28
  else if month = 4 || month = 6 || month = 9 || month = 11 then 30
  else 31

/-! ## Reading -/

/-- A fixed number of digits. -/
def fixedDigits (count : Nat) (s : List Char) : Option (Nat × List Char) :=
  let ds := s.take count
  if ds.length = count && ds.all Char.isDigit then some (Json.Parser.decimal ds, s.drop count)
  else none

/-- A character that must stand here. -/
def mark (allowed : List Char) : List Char → Option (List Char)
  | c :: rest => if allowed.contains c then some rest else none
  | [] => none

/-- The digits after a point as nanoseconds; those after the ninth are dropped. -/
def fraction : List Char → Option (Nat × List Char)
  | '.' :: rest =>
    match Json.Parser.digits rest with
    | ([], _) => none
    | (ds, rest) =>
      let nine := (ds ++ List.replicate 9 '0').take 9
      some (Json.Parser.decimal nine, rest)
  | s => some (0, s)

/-- The distance from UTC in seconds. -/
def offset : List Char → Option (Int × List Char)
  | 'Z' :: rest => some (0, rest)
  | 'z' :: rest => some (0, rest)
  | c :: rest => do
    let sign : Int ← if c = '+' then some 1 else if c = '-' || c = '−' then some (-1) else none
    let (h, rest) ← fixedDigits 2 rest
    let rest ← mark [':'] rest
    let (m, rest) ← fixedDigits 2 rest
    if h < 24 && m < 60 then some (sign * ((h * 3600 + m * 60 : Nat) : Int), rest) else none
  | [] => none

/-- The moment that a whole text denotes. -/
def parse? (s : String) : Option Time := do
  let (year, s) ← fixedDigits 4 s.toList
  let s ← mark ['-'] s
  let (month, s) ← fixedDigits 2 s
  let s ← mark ['-'] s
  let (day, s) ← fixedDigits 2 s
  let s ← mark ['T', 't', ' '] s
  let (hour, s) ← fixedDigits 2 s
  let s ← mark [':'] s
  let (minute, s) ← fixedDigits 2 s
  let s ← mark [':'] s
  let (second, s) ← fixedDigits 2 s
  let (nanos, s) ← fraction s
  let (away, s) ← offset s
  if !s.isEmpty then none
  else if month < 1 || 12 < month || day < 1 || daysInMonth year month < day then none
  else if 23 < hour || 59 < minute || 60 < second then none
  else
    let leap := second = 60
    let second := if leap then 59 else second
    let clock : Int := ((hour * 3600 + minute * 60 + second : Nat) : Int)
    some ⟨daysOfDate year month day * 86400 + clock - away, if leap then nanos + secondNanos else nanos⟩

/-! ## Writing -/

/-- A number with leading zeros. -/
def padded (width n : Nat) : String :=
  let ds := Nat.toDigits 10 n
  String.ofList (List.replicate (width - ds.length) '0' ++ ds)

/-- The fraction of a second in as few groups of three digits as it needs. -/
def fractionText (nanos : Nat) : String :=
  if nanos = 0 then ""
  else if nanos % 1000000 = 0 then "." ++ padded 3 (nanos / 1000000)
  else if nanos % 1000 = 0 then "." ++ padded 6 (nanos / 1000)
  else "." ++ padded 9 nanos

/-- Date, clock and fraction in UTC, without the distance. -/
def parts (t : Time) : String × String × String :=
  let days := t.seconds.fdiv 86400
  let clock := (t.seconds - days * 86400).toNat
  let (year, month, day) := dateOfDays days
  let leap := secondNanos ≤ t.nanos
  let second := clock % 60 + (if leap then 1 else 0)
  let nanos := if leap then t.nanos - secondNanos else t.nanos
  let yearText :=
    if 0 ≤ year && year ≤ 9999 then padded 4 year.toNat
    else (if year < 0 then "-" else "+") ++ padded 4 year.natAbs
  (yearText ++ "-" ++ padded 2 month ++ "-" ++ padded 2 day,
    padded 2 (clock / 3600) ++ ":" ++ padded 2 (clock / 60 % 60) ++ ":" ++ padded 2 second,
    fractionText nanos)

/-- The moment in UTC with its distance of zero. -/
def text (t : Time) : String :=
  let (date, clock, fraction) := t.parts
  date ++ "T" ++ clock ++ fraction ++ "+00:00"

end Time

end Playbook
