import BackendMigration.Json.Basic
import BackendMigration.Time.Timestamp

/-! Times in JSON and in messages. -/
namespace BackendMigration.Time

/-- A point in time as its text, or null. -/
def timeJson (t : Option Timestamp) : Json := Json.ofText? (t.map (·.text))

/-- A number of seconds, or null. -/
def secondsJson : Option Double → Json
  | some x => .float x
  | none => .null

/-! Times in messages. -/

/-- A name and what it is applied to. -/
def applied (name : String) (arguments : List String) : String :=
  name ++ "(" ++ ", ".intercalate arguments ++ ")"

def Date.numbers (d : Date) : List String := [toString d.year, toString d.month, toString d.day]

/-- Hours and minutes; seconds and microseconds as far as there are any. -/
def Clock.numbers (c : Clock) : List String :=
  [toString c.hour, toString c.minute] ++
    (if c.second = 0 ∧ c.microsecond = 0 then [] else [toString c.second]) ++
    (if c.microsecond = 0 then [] else [toString c.microsecond])

def Date.inspect (d : Date) : String := applied "datetime.date" d.numbers

def Clock.inspect (c : Clock) : String := applied "datetime.time" c.numbers

/-- A number of seconds as whole days, which may be negative, and the seconds after them. -/
def durationForm (seconds : Int) : String :=
  let days := seconds.fdiv 86400
  let rest := seconds.fmod 86400
  applied "datetime.timedelta" <|
    (if days = 0 then [] else ["days=" ++ toString days]) ++
      (if rest = 0 then [] else ["seconds=" ++ toString rest])

/-- An offset from universal time. -/
def offsetForm (minutes : Int) : String :=
  if minutes = 0 then "datetime.timezone.utc"
  else applied "datetime.timezone" [durationForm (60 * minutes)]

def Timestamp.inspect (t : Timestamp) : String :=
  applied "datetime.datetime"
    (t.date.numbers ++ t.clock.numbers ++ (t.offset.map ("tzinfo=" ++ offsetForm ·)).toList)

/-- The date and the time of day with a blank between them. -/
def Timestamp.spelled (t : Timestamp) : String :=
  t.date.text ++ " " ++ t.clock.text ++ (t.offset.map offsetText).getD ""

end BackendMigration.Time
