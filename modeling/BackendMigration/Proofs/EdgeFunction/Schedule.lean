import BackendMigration.Proofs.EdgeFunction.Phrase
import BackendMigration.Proofs.Json.Lexeme

/-! The schedule that a phrase asks for, and the cron expression that stands for it: an expression that
stands for itself. -/
namespace BackendMigration.EdgeFunction

open Text (IsGap IsSolid Spaced digitsToNat)

/-- What a phrase can ask for. -/
inductive Schedule where
  | fields (expression : Text)
  | minutes (n : Nat)
  | hours (n : Nat)
  | daily (hour minute : Nat)
  deriving DecidableEq, Repr

namespace Schedule

/-- The numbers are some that fields of a cron expression can have. -/
def InRange : Schedule → Prop
  | fields _ => True
  | minutes n => 1 ≤ n ∧ n ≤ 59
  | hours n => 1 ≤ n ∧ n ≤ 23
  | daily hour minute => hour ≤ 23 ∧ minute ≤ 59

instance : DecidablePred InRange
  | fields _ => isTrue trivial
  | minutes n => inferInstanceAs (Decidable (1 ≤ n ∧ n ≤ 59))
  | hours n => inferInstanceAs (Decidable (1 ≤ n ∧ n ≤ 23))
  | daily hour minute => inferInstanceAs (Decidable (hour ≤ 23 ∧ minute ≤ 59))

/-- The cron expression of a schedule, its numbers in decimal. -/
def expression : Schedule → String
  | fields e => String.ofList e
  | minutes n => "*/" ++ toString n ++ " * * * *"
  | hours n => "0 */" ++ toString n ++ " * * *"
  | daily hour minute => toString minute ++ " " ++ toString hour ++ " * * *"

end Schedule

/-- A phrase asks for a schedule. -/
def Says (t : Text) : Schedule → Prop
  | .fields e => e = t ∧ IsExpression t
  | .minutes n => ∃ numeral, Counts "minute" numeral t ∧ digitsToNat numeral = n
  | .hours n => ∃ numeral, Counts "hour" numeral t ∧ digitsToNat numeral = n
  | .daily h m => ∃ hour minute, TellsTime hour minute t ∧ digitsToNat hour = h ∧ digitsToNat minute = m

variable {t : Text} {x y : Schedule} {schedule : Option String} {cron : Cron}

theorem minute_mem_units : "minute" ∈ units := List.mem_cons_self

theorem hour_mem_units : "hour" ∈ units := List.mem_cons_of_mem _ List.mem_cons_self

theorem IsExpression.not_counts {unit : String} {numeral : Text} (h : IsExpression t)
    (hunit : unit ∈ units) : ¬Counts unit numeral t := by
  intro hcounts
  obtain ⟨every, unit', hwords, -⟩ := hcounts.words_eq hunit
  have hlength := h.length_words
  rw [hwords] at hlength
  cases hlength

theorem IsExpression.not_tellsTime {hour minute : Text} (h : IsExpression t) :
    ¬TellsTime hour minute t := by
  intro htells
  obtain ⟨every, day, hwords, -⟩ := htells.words_eq
  have hlength := h.length_words
  rw [hwords] at hlength
  cases hlength

/-- A phrase asks for one schedule only. -/
theorem Says.unique (hx : Says t x) (hy : Says t y) : x = y := by
  -- Fields go with fields only, for they are five words; and units and times are told apart by theirs.
  cases x with
  | fields e =>
    obtain ⟨rfl, he⟩ := hx
    cases y with
    | fields e' => rw [hy.1]
    | minutes n => exact absurd hy.choose_spec.1 (he.not_counts minute_mem_units)
    | hours n => exact absurd hy.choose_spec.1 (he.not_counts hour_mem_units)
    | daily h m =>
      obtain ⟨_, _, htells, -⟩ := hy
      exact absurd htells he.not_tellsTime
  | minutes n =>
    obtain ⟨numeral, hcounts, rfl⟩ := hx
    cases y with
    | fields e => exact absurd hcounts (hy.2.not_counts minute_mem_units)
    | minutes n' =>
      obtain ⟨numeral', hcounts', rfl⟩ := hy
      rw [hcounts.numeral_eq minute_mem_units minute_mem_units hcounts']
    | hours n' =>
      obtain ⟨numeral', hcounts', -⟩ := hy
      exact absurd (hcounts.unit_eq minute_mem_units hour_mem_units hcounts') (by decide)
    | daily h m =>
      obtain ⟨_, _, htells, -⟩ := hy
      exact absurd htells (hcounts.not_tellsTime minute_mem_units)
  | hours n =>
    obtain ⟨numeral, hcounts, rfl⟩ := hx
    cases y with
    | fields e => exact absurd hcounts (hy.2.not_counts hour_mem_units)
    | minutes n' =>
      obtain ⟨numeral', hcounts', -⟩ := hy
      exact absurd (hcounts.unit_eq hour_mem_units minute_mem_units hcounts') (by decide)
    | hours n' =>
      obtain ⟨numeral', hcounts', rfl⟩ := hy
      rw [hcounts.numeral_eq hour_mem_units hour_mem_units hcounts']
    | daily h m =>
      obtain ⟨_, _, htells, -⟩ := hy
      exact absurd htells (hcounts.not_tellsTime hour_mem_units)
  | daily h m =>
    obtain ⟨hour, minute, htells, rfl, rfl⟩ := hx
    cases y with
    | fields e => exact absurd htells hy.2.not_tellsTime
    | minutes n =>
      obtain ⟨_, hcounts, -⟩ := hy
      exact absurd htells (hcounts.not_tellsTime minute_mem_units)
    | hours n =>
      obtain ⟨_, hcounts, -⟩ := hy
      exact absurd htells (hcounts.not_tellsTime hour_mem_units)
    | daily h' m' =>
      obtain ⟨hour', minute', htells', rfl, rfl⟩ := hy
      obtain ⟨rfl, rfl⟩ := htells.eq htells'
      rfl

/-! What stands for a phrase. -/

theorem everyWithin?_minute_iff {n : Nat} : everyWithin? "minute" 59 t = some n ↔
    Says t (.minutes n) ∧ (Schedule.minutes n).InRange := by
  rw [everyWithin?_eq_some_iff minute_mem_units]
  simp only [Says, Schedule.InRange, exists_and_right, ← and_assoc]

theorem everyWithin?_hour_iff {n : Nat} : everyWithin? "hour" 23 t = some n ↔
    Says t (.hours n) ∧ (Schedule.hours n).InRange := by
  rw [everyWithin?_eq_some_iff hour_mem_units]
  simp only [Says, Schedule.InRange, exists_and_right, ← and_assoc]

theorem timeOfDay?_iff {hour minute : Nat} : timeOfDay? t = some (hour, minute) ↔
    Says t (.daily hour minute) ∧ (Schedule.daily hour minute).InRange := by
  rw [timeOfDay?_eq_some_iff]
  simp only [Says, Schedule.InRange, exists_and_right, ← and_assoc]

theorem not_says_nil : ¬Says [] x := by
  have hspaced {ws : List Text} (h : Spaced ws []) (hws : ∀ w ∈ ws, IsSolid w) : False :=
    (h.firm hws).ne_nil rfl
  intro h
  cases x with
  | fields e =>
    obtain ⟨-, fields, -, hall, h⟩ := h
    exact hspaced h fun f hf => isSolid_of_isField (hall f hf)
  | minutes n =>
    obtain ⟨numeral, hcounts, -⟩ := h
    obtain ⟨_, _, hwords, -⟩ := hcounts.words_eq minute_mem_units
    cases hwords
  | hours n =>
    obtain ⟨numeral, hcounts, -⟩ := h
    obtain ⟨_, _, hwords, -⟩ := hcounts.words_eq hour_mem_units
    cases hwords
  | daily h m =>
    obtain ⟨_, _, htells, -⟩ := h
    obtain ⟨_, _, hwords, -⟩ := htells.words_eq
    cases hwords

/-- What a phrase asks for has no note, and anything else has one and gets the default. -/
theorem cronOf_cases (schedule : Option String) :
    (∃ x, Says (phraseOf schedule) x ∧ x.InRange ∧ cronOf schedule = ⟨x.expression, none⟩) ∨
      ((∀ x, Says (phraseOf schedule) x → ¬x.InRange) ∧ (cronOf schedule).expression = defaultCron ∧
        (cronOf schedule).note.isSome = true) := by
  unfold cronOf
  generalize phraseOf schedule = phrase
  dsimp only
  split
  · rename_i hempty
    obtain rfl := List.isEmpty_iff.1 hempty
    exact .inr ⟨fun _ h => absurd h not_says_nil, rfl, rfl⟩
  · split
    · rename_i hfields
      exact .inl ⟨.fields phrase, ⟨rfl, isSome_cronExpression_iff.1 hfields⟩, trivial, rfl⟩
    · rename_i hfields
      split
      · rename_i n hn
        obtain ⟨hsaid, hrange⟩ := everyWithin?_minute_iff.1 hn
        exact .inl ⟨.minutes n, hsaid, hrange, rfl⟩
      · rename_i hminute
        split
        · rename_i n hn
          obtain ⟨hsaid, hrange⟩ := everyWithin?_hour_iff.1 hn
          exact .inl ⟨.hours n, hsaid, hrange, rfl⟩
        · rename_i hhour
          split
          · rename_i hour minute htime
            obtain ⟨hsaid, hrange⟩ := timeOfDay?_iff.1 htime
            exact .inl ⟨.daily hour minute, hsaid, hrange, rfl⟩
          · rename_i htime
            refine .inr ⟨fun x hsaid hrange => ?_, rfl, rfl⟩
            cases x with
            | fields e => exact hfields (isSome_cronExpression_iff.2 hsaid.2)
            | minutes n => exact hminute n (everyWithin?_minute_iff.2 ⟨hsaid, hrange⟩)
            | hours n => exact hhour n (everyWithin?_hour_iff.2 ⟨hsaid, hrange⟩)
            | daily hour minute => exact htime hour minute (timeOfDay?_iff.2 ⟨hsaid, hrange⟩)

theorem cronOf_eq (hx : Says (phraseOf schedule) x) (hrange : x.InRange) :
    cronOf schedule = ⟨x.expression, none⟩ := by
  rcases cronOf_cases schedule with ⟨y, hy, -, h⟩ | ⟨hnone, -⟩
  · rw [h, hx.unique hy]
  · exact absurd hrange (hnone x hx)

theorem note_cronOf_eq_none_iff : (cronOf schedule).note = none ↔
    ∃ x, Says (phraseOf schedule) x ∧ x.InRange := by
  constructor
  · intro h
    rcases cronOf_cases schedule with ⟨x, hx, hrange, -⟩ | ⟨-, -, hnote⟩
    · exact ⟨x, hx, hrange⟩
    · rw [h] at hnote
      cases hnote
  · rintro ⟨x, hx, hrange⟩
    rw [cronOf_eq hx hrange]

/-! An expression stands for itself. -/

namespace Schedule

/-- The fields of the expression of a schedule. -/
def columns : Schedule → List Text
  | fields e => Text.words e
  | minutes n => ['*' :: '/' :: Nat.toDigits 10 n, ['*'], ['*'], ['*'], ['*']]
  | hours n => [['0'], '*' :: '/' :: Nat.toDigits 10 n, ['*'], ['*'], ['*']]
  | daily hour minute => [Nat.toDigits 10 minute, Nat.toDigits 10 hour, ['*'], ['*'], ['*']]

end Schedule

theorem isGap_space : IsGap [' '] := ⟨List.cons_ne_nil _ _, rfl⟩

theorem isCronChar_of_isDigit {c : Char} (h : c.isDigit = true) : isCronChar c = true := by
  rw [isCronChar, Text.isDecimal, Json.digitValue?_of_isDigit h]
  rfl

theorem isField_toDigits (n : Nat) : IsField (Nat.toDigits 10 n) := by
  obtain ⟨hne, hall⟩ := Decimal.isDigits_toDigits n
  exact ⟨hne, fun c hc => isCronChar_of_isDigit (hall c hc)⟩

theorem isField_step (n : Nat) : IsField ('*' :: '/' :: Nat.toDigits 10 n) := by
  refine ⟨List.cons_ne_nil _ _, fun c hc => ?_⟩
  rcases List.mem_cons.1 hc with rfl | hc
  · decide
  · rcases List.mem_cons.1 hc with rfl | hc
    · decide
    · exact (isField_toDigits n).2 c hc

theorem isField_star : IsField ['*'] := ⟨List.cons_ne_nil _ _, List.forall_mem_singleton.2 (by decide)⟩

theorem spaced_of_join {fields : List Text} (hne : fields ≠ []) (h : t = Text.join [' '] fields) :
    Spaced fields t := by
  rw [h]
  exact Text.spaced_join isGap_space hne

/-- The expression of a schedule has five fields, its columns. -/
theorem Says.spaced_columns (h : Says t x) : x.columns.length = 5 ∧
    (∀ f ∈ x.columns, IsField f) ∧ Spaced x.columns x.expression.toList := by
  cases x with
  | fields e =>
    obtain ⟨rfl, fields, hlength, hall, hspaced⟩ := h
    have hwords : (Schedule.fields e).columns = fields :=
      hspaced.words_eq fun f hf => isSolid_of_isField (hall f hf)
    rw [hwords, Schedule.expression, String.toList_ofList]
    exact ⟨hlength, hall, hspaced⟩
  | minutes n =>
    refine ⟨rfl, by simp [Schedule.columns, isField_step, isField_star], ?_⟩
    refine spaced_of_join (List.cons_ne_nil _ _) ?_
    simp [Schedule.expression, Schedule.columns, Text.join]
  | hours n =>
    have hzero : IsField ['0'] := isField_toDigits 0
    refine ⟨rfl, by simp [Schedule.columns, isField_step, isField_star, hzero], ?_⟩
    refine spaced_of_join (List.cons_ne_nil _ _) ?_
    simp [Schedule.expression, Schedule.columns, Text.join]
  | daily hour minute =>
    refine ⟨rfl, by simp [Schedule.columns, isField_toDigits, isField_star], ?_⟩
    refine spaced_of_join (List.cons_ne_nil _ _) ?_
    simp [Schedule.expression, Schedule.columns, Text.join]

theorem Says.isExpression (h : Says t x) : IsExpression x.expression.toList :=
  ⟨x.columns, h.spaced_columns⟩

theorem isExpression_defaultCron : IsExpression defaultCron.toList :=
  isSome_cronExpression_iff.1 (by decide)

theorem isExpression_cronOf (schedule : Option String) :
    IsExpression (cronOf schedule).expression.toList := by
  rcases cronOf_cases schedule with ⟨x, hx, -, h⟩ | ⟨-, h, -⟩
  · rw [h]
    exact hx.isExpression
  · rw [h]
    exact isExpression_defaultCron

theorem phraseOf_of_isExpression {e : String} (h : IsExpression e.toList) : phraseOf (some e) = e.toList := by
  obtain ⟨fields, -, hall, hspaced⟩ := h
  exact hspaced.strip_eq fun f hf => isSolid_of_isField (hall f hf)

/-- A phrase has no schedule if it counts with more digits than are read. -/
theorem scheduleFault?_eq_some_iff {f : Text.IntegerFault} : scheduleFault? schedule = some f ↔
    ∃ unit ∈ units, ∃ numeral, Counts unit numeral (phraseOf schedule) ∧
      Text.digitLimit < numeral.length ∧ f = .overlong numeral.length := by
  rw [scheduleFault?, Option.or_eq_some_iff, unreadNumber?_eq_some_iff minute_mem_units,
    unreadNumber?_eq_some_iff hour_mem_units]
  constructor
  · rintro (h | ⟨-, h⟩)
    · exact ⟨_, minute_mem_units, h⟩
    · exact ⟨_, hour_mem_units, h⟩
  · rintro ⟨unit, hunit, h⟩
    rcases List.mem_cons.1 hunit with rfl | hhour
    · exact .inl h
    · obtain rfl := List.mem_singleton.1 hhour
      refine .inr ⟨Option.eq_none_iff_forall_ne_some.2 fun f' hminute => ?_, h⟩
      -- A phrase that counts hours does not count minutes.
      obtain ⟨_, hcounts, -⟩ := h
      obtain ⟨_, hcounts', -⟩ := (unreadNumber?_eq_some_iff minute_mem_units).1 hminute
      exact absurd (hcounts.unit_eq hour_mem_units minute_mem_units hcounts') (by decide)

theorem toCron_of_isExpression {e : String} (h : IsExpression e.toList) :
    toCron (some e) = .ok ⟨e, none⟩ := by
  have hphrase := phraseOf_of_isExpression h
  rw [toCron_eq_ok_iff]
  constructor
  · rw [Option.eq_none_iff_forall_ne_some]
    intro f hf
    obtain ⟨unit, hunit, numeral, hcounts, -⟩ := scheduleFault?_eq_some_iff.1 hf
    rw [hphrase] at hcounts
    exact h.not_counts hunit hcounts
  · rw [cronOf_eq (x := .fields e.toList) (by rw [hphrase]; exact ⟨rfl, h⟩) trivial]
    rw [Schedule.expression, String.ofList_toList]

/-- The expression of every schedule that can be read stands for itself. It has no note exactly if the
phrase asks for a schedule whose numbers are in range, and then it is that schedule's expression. Only a
numeral with more digits than are read stops a schedule from being read. -/
theorem toCron_normalizes (schedule : Option String) :
    (∀ cron, toCron schedule = .ok cron →
      toCron (some cron.expression) = .ok ⟨cron.expression, none⟩ ∧
      (cron.note = none ↔ ∃ x, Says (phraseOf schedule) x ∧ x.InRange) ∧
      ∀ x, Says (phraseOf schedule) x → x.InRange → cron.expression = x.expression) ∧
    ∀ f, toCron schedule = .error f ↔ ∃ unit ∈ units, ∃ numeral,
      Counts unit numeral (phraseOf schedule) ∧ Text.digitLimit < numeral.length ∧
        f = .overlong numeral.length := by
  constructor
  · intro cron hcron
    obtain ⟨-, rfl⟩ := toCron_eq_ok_iff.1 hcron
    refine ⟨toCron_of_isExpression (isExpression_cronOf schedule), note_cronOf_eq_none_iff, ?_⟩
    intro x hx hrange
    rw [cronOf_eq hx hrange]
  · intro f
    rw [← scheduleFault?_eq_some_iff, toCron_eq_error_iff]

theorem toCron_normalizes_capitals :
    toCron (some "EVERY  007\tMinutes ") = .ok ⟨"*/7 * * * *", none⟩ ∧
      toCron (some "*/7 * * * *") = .ok ⟨"*/7 * * * *", none⟩ := by
  have h : toCron (some "EVERY  007\tMinutes ") = .ok ⟨"*/7 * * * *", none⟩ := by decide +kernel
  exact ⟨h, ((toCron_normalizes _).1 _ h).1⟩

/-! A phrase with more digits than are read. -/

theorem digitsToNat_zeros (n : Nat) : digitsToNat (List.replicate n '0') = 0 := by
  induction n with
  | zero => rfl
  | succ n ih =>
    rw [List.replicate_succ', Text.digitsToNat_concat, ih]
    rfl

theorem spelled_self {word : String}
    (h : word.toList.all (fun c => (CharClass.anyCase c).holds c) = true) : Spelled word word.toList :=
  List.forall₂_same.2 (List.all_eq_true.1 h)

/-- A five with zeros in front. -/
def paddedFive (zeros : Nat) : Text := List.replicate zeros '0' ++ ['5']

/-- `every`, a five with zeros in front, and `minutes`. -/
def everyPaddedFive (zeros : Nat) : String :=
  String.ofList (Text.join [' '] ["every".toList, paddedFive zeros, "minutes".toList])

theorem length_paddedFive (zeros : Nat) : (paddedFive zeros).length = zeros + 1 := by
  simp [paddedFive]

theorem counts_everyPaddedFive (zeros : Nat) :
    Counts "minute" (paddedFive zeros) (phraseOf (some (everyPaddedFive zeros))) := by
  have hnumeral : IsNumeral (paddedFive zeros) := by
    refine ⟨by simp [paddedFive], fun c hc => ?_⟩
    rcases List.mem_append.1 hc with hc | hc
    · obtain rfl := List.eq_of_mem_replicate hc
      decide
    · obtain rfl := List.mem_singleton.1 hc
      decide
  have hunit : IsUnit "minute" "minutes".toList :=
    ⟨"minute".toList, "s".toList, spelled_self (by decide), .inr (spelled_self (by decide)), by simp⟩
  have hcounts : Counts "minute" (paddedFive zeros) (everyPaddedFive zeros).toList := by
    have htext : (everyPaddedFive zeros).toList =
        Text.join [' '] ["every".toList, paddedFive zeros, "minutes".toList] := String.toList_ofList
    exact ⟨"every".toList, "minutes".toList, spelled_self (by decide), hnumeral, hunit,
      spaced_of_join (List.cons_ne_nil _ _) htext⟩
  rw [phraseOf, Option.getD_some, hcounts.strip_eq minute_mem_units]
  exact hcounts

/-- Zeros in front of a number stop the phrase from being read. -/
theorem everyPaddedFive_unread :
    Says (phraseOf (some (everyPaddedFive 4300))) (.minutes 5) ∧ (Schedule.minutes 5).InRange ∧
      toCron (some (everyPaddedFive 4300)) = .error (.overlong 4301) := by
  have hcounts := counts_everyPaddedFive 4300
  refine ⟨⟨_, hcounts, ?_⟩, by decide, ?_⟩
  · rw [paddedFive, Text.digitsToNat_concat, digitsToNat_zeros]
    rfl
  · rw [toCron_eq_error_iff, scheduleFault?_eq_some_iff]
    have hlength := length_paddedFive 4300
    refine ⟨_, minute_mem_units, _, hcounts, ?_, ?_⟩
    · rw [hlength]
      decide
    · rw [hlength]

end BackendMigration.EdgeFunction
