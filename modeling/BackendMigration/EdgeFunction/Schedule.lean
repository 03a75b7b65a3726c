import BackendMigration.Pattern.Match
import BackendMigration.Text.Integer
import BackendMigration.Text.Search

/-! Schedules as cron expressions. -/
namespace BackendMigration.EdgeFunction

open Pattern

/-- The cron expression of a schedule, and a note where it stands in for one. -/
structure Cron where
  expression : String
  note : Option String
  deriving DecidableEq, Repr

/-- Every day at two in the morning. -/
def defaultCron : String := "0 2 * * *"

/-- One field of a cron expression. -/
def cronField : Pattern :=
  repeated (one (.union .decimal (.union (.between 'A' 'Z') (.union (.between 'a' 'z')
    (.oneOf "*/,-?#")))))

/-- Five fields. -/
def cronExpression : Pattern :=
  concat (cronField :: List.replicate 4 (concat [someBlanks, cronField]))

/-- `every`, a number and a unit, in capitals or small letters. -/
def everyNumber (unit : String) : Pattern :=
  concat
    [textAnyCase "every", someBlanks, part "number" (repeated (one .decimal)), someBlanks,
      textAnyCase unit, optional (textAnyCase "s")]

/-- `every day` at an hour and a minute. -/
def everyDayAt : Pattern :=
  let digit := one .decimal
  concat
    [textAnyCase "every", someBlanks, textAnyCase "day", someBlanks,
      part "hour" (concat [digit, optional digit]), text ":", part "minute" (concat [digit, digit])]

/-- The number that a part of a match writes. -/
def numberPart (m : Match) (name : String) : Nat := Text.digitsToNat ((m.part? name).getD [])

/-- The number of an `every` phrase, from one to a greatest. -/
def everyWithin? (unit : String) (greatest : Nat) (phrase : Text) : Option Nat :=
  ((everyNumber unit).matchAll? phrase).bind fun m =>
    let n := numberPart m "number"
    if 1 ≤ n ∧ n ≤ greatest then some n else none

/-- The hour and minute of an `every day` phrase. -/
def timeOfDay? (phrase : Text) : Option (Nat × Nat) :=
  (everyDayAt.matchAll? phrase).bind fun m =>
    let hour := numberPart m "hour"
    let minute := numberPart m "minute"
    if hour ≤ 23 ∧ minute ≤ 59 then some (hour, minute) else none

/-- The phrase of a schedule; empty if there is none. -/
def phraseOf (schedule : Option String) : Text := Text.strip (schedule.getD "").toList

/-- The cron expression that stands for a schedule. Without a phrase, or for one of another form, it
is the default with a note. -/
def cronOf (schedule : Option String) : Cron :=
  let phrase := phraseOf schedule
  if phrase.isEmpty then
    ⟨defaultCron, some ("No schedule found; defaulted to '" ++ defaultCron ++ "'")⟩
  else if (cronExpression.matchAll? phrase).isSome then ⟨String.ofList phrase, none⟩
  else if let some n := everyWithin? "minute" 59 phrase then
    ⟨"*/" ++ toString n ++ " * * * *", none⟩
  else if let some n := everyWithin? "hour" 23 phrase then
    ⟨"0 */" ++ toString n ++ " * * *", none⟩
  else if let some (hour, minute) := timeOfDay? phrase then
    ⟨toString minute ++ " " ++ toString hour ++ " * * *", none⟩
  else
    ⟨defaultCron, some ("Could not convert schedule '" ++ String.ofList phrase ++
      "'; defaulted to '" ++ defaultCron ++ "'")⟩

/-- The number of an `every` phrase cannot be read. -/
def unreadNumber? (unit : String) (phrase : Text) : Option Text.IntegerFault :=
  ((everyNumber unit).matchAll? phrase).bind fun m =>
    match Text.readDigits ((m.part? "number").getD []) with
    | .ok _ => none
    | .error f => some f

/-- The number of a schedule cannot be read. -/
def scheduleFault? (schedule : Option String) : Option Text.IntegerFault :=
  let phrase := phraseOf schedule
  (unreadNumber? "minute" phrase).or (unreadNumber? "hour" phrase)

/-- The cron expression of a schedule whose number can be read. -/
def toCron (schedule : Option String) : Except Text.IntegerFault Cron :=
  match scheduleFault? schedule with
  | some f => .error f
  | none => .ok (cronOf schedule)

theorem toCron_eq_ok_iff {schedule : Option String} {cron : Cron} :
    toCron schedule = .ok cron ↔ scheduleFault? schedule = none ∧ cronOf schedule = cron := by
  unfold toCron
  split <;> simp_all

theorem toCron_eq_error_iff {schedule : Option String} {f : Text.IntegerFault} :
    toCron schedule = .error f ↔ scheduleFault? schedule = some f := by
  unfold toCron
  split <;> simp_all

end BackendMigration.EdgeFunction
