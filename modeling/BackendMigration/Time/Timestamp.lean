import BackendMigration.Decimal.Double

/-! Points in time, their text and the time between them. -/
namespace BackendMigration.Time

/-- A calendar date. -/
structure Date where
  year : Nat
  month : Nat
  day : Nat
  deriving DecidableEq, Repr

/-- A time of day. -/
structure Clock where
  hour : Nat := 0
  minute : Nat := 0
  second : Nat := 0
  microsecond : Nat := 0
  deriving DecidableEq, Repr

/-- A point in time; the offset from universal time is in minutes. -/
structure Timestamp where
  date : Date
  clock : Clock
  offset : Option Int
  deriving DecidableEq, Repr

/-- A number with leading zeros. -/
def padded (width n : Nat) : String :=
  let digits := Nat.toDigits 10 n
  String.ofList (List.replicate (width - digits.length) '0' ++ digits)

def Date.text (d : Date) : String :=
  padded 4 d.year ++ "-" ++ padded 2 d.month ++ "-" ++ padded 2 d.day

/-- Microseconds are written if there are any. -/
def Clock.text (c : Clock) : String :=
  padded 2 c.hour ++ ":" ++ padded 2 c.minute ++ ":" ++ padded 2 c.second ++
    (if c.microsecond = 0 then "" else "." ++ padded 6 c.microsecond)

/-- The offset from universal time, with its sign. -/
def offsetText (minutes : Int) : String :=
  (if minutes < 0 then "-" else "+") ++ padded 2 (minutes.natAbs / 60) ++ ":" ++
    padded 2 (minutes.natAbs % 60)

def Timestamp.text (t : Timestamp) : String :=
  t.date.text ++ "T" ++ t.clock.text ++ (t.offset.map offsetText).getD ""

def isLeapYear (year : Nat) : Bool := year % 4 == 0 && (year % 100 != 0 || year % 400 == 0)

/-- The days before a month in a year without a leap day. -/
def daysBeforeMonth (month : Nat) : Nat :=
  ([31, 28, 31, 30, 31, 30, 31, 31, 30, 31, 30, 31].take (month - 1)).foldl (· + ·) 0

/-- The days from the first day of the calendar. -/
def Date.days (d : Date) : Nat :=
  let y := d.year - 1
  365 * y + y / 4 - y / 100 + y / 400 + daysBeforeMonth d.month +
    (if 2 < d.month && isLeapYear d.year then 1 else 0) + d.day

/-- The microseconds from the first day of the calendar, in local time. -/
def Timestamp.microseconds (t : Timestamp) : Int :=
  let seconds := t.date.days * 86400 + t.clock.hour * 3600 + t.clock.minute * 60 + t.clock.second
  ((seconds * 1000000 + t.clock.microsecond : Nat) : Int)

/-- The same point in time. One with an offset is never the same as one without. -/
def Timestamp.agrees (t u : Timestamp) : Bool :=
  match t.offset, u.offset with
  | none, none => t == u
  | some a, some b => t.microseconds - a * 60000000 == u.microseconds - b * 60000000
  | _, _ => false

/-- The seconds from one point to another. -/
def secondsBetween (start stop : Timestamp) : Double :=
  let d := stop.microseconds - start.microseconds
  Double.ofRatio (d < 0) d.natAbs 1000000

/-- The time over which something runs. -/
structure Period where
  start : Timestamp
  stop : Timestamp
  deriving DecidableEq, Repr

/-- No time passes between a point and itself. -/
theorem secondsBetween_self (t : Timestamp) : secondsBetween t t = Double.zero false := by
  simp [secondsBetween, Double.ofRatio]

end BackendMigration.Time
