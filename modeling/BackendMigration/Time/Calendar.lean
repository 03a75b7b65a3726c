import BackendMigration.Time.Form

/-! The bounds of dates, of times of day and of offsets. -/
namespace BackendMigration.Time

/-- What is out of range. -/
inductive RangeFault where
  | year (n : Int)
  | month
  | day
  | hour
  | minute
  | second
  | microsecond
  /-- An offset of a day or more. -/
  | offset (minutes : Int)
  deriving DecidableEq, Repr

def RangeFault.message : RangeFault → String
  | year n => "year " ++ toString n ++ " is out of range"
  | month => "month must be in 1..12"
  | day => "day is out of range for month"
  | hour => "hour must be in 0..23"
  | minute => "minute must be in 0..59"
  | second => "second must be in 0..59"
  | microsecond => "microsecond must be in 0..999999"
  | offset minutes =>
    "offset must be a timedelta strictly between -timedelta(hours=24) and timedelta(hours=24), not " ++
      durationForm (60 * minutes) ++ "."

/-- The number of days of a month. -/
def daysInMonth (year month : Nat) : Nat :=
  if month = 2 then (if isLeapYear year then 29 else 28)
  else if month ∈ [4, 6, 9, 11] then 30
  else 31

/-- A number that lies between two bounds. -/
def bounded (low high n : Int) (f : RangeFault) : Except RangeFault Nat :=
  if low ≤ n ∧ n ≤ high then .ok n.toNat else .error f

def Date.ofNumbers (year month day : Int) : Except RangeFault Date := do
  let y ← bounded 1 9999 year (.year year)
  let m ← bounded 1 12 month .month
  return ⟨y, m, ← bounded 1 (daysInMonth y m) day .day⟩

def Clock.ofNumbers (hour minute second microsecond : Int) : Except RangeFault Clock := do
  return ⟨← bounded 0 23 hour .hour, ← bounded 0 59 minute .minute, ← bounded 0 59 second .second,
    ← bounded 0 999999 microsecond .microsecond⟩

/-- An offset of less than a day either way. -/
def offsetOfMinutes (minutes : Int) : Except RangeFault Int :=
  if minutes.natAbs < 1440 then .ok minutes else .error (.offset minutes)

/-- A number between bounds stays the same. -/
theorem bounded_eq_ok {low high n : Int} {f : RangeFault} {k : Nat} (hl : 0 ≤ low)
    (h : bounded low high n f = .ok k) : (k : Int) = n := by
  unfold bounded at h
  split at h
  · cases h; omega
  · cases h

/-- No month is without days. -/
theorem daysInMonth_pos (year month : Nat) : 0 < daysInMonth year month := by
  unfold daysInMonth
  repeat' split
  all_goals decide

end BackendMigration.Time
