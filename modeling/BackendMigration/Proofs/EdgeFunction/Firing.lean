import BackendMigration.Proofs.EdgeFunction.Schedule

/-! When cron expressions fire, and whether the expression that stands for a phrase fires when the phrase
says. -/
namespace BackendMigration.EdgeFunction

open Text (splitBy cutAt? digitsToNat)

/-- Values from a first to a last one, in steps. -/
structure Span where
  first : Nat
  last : Nat
  step : Nat
  deriving DecidableEq, Repr

namespace Span

def Holds (s : Span) (v : Nat) : Prop := s.first ≤ v ∧ v ≤ s.last ∧ (v - s.first) % s.step = 0

/-- A span of a field whose values go from zero to a greatest. -/
def Within (s : Span) (greatest : Nat) : Prop := s.first ≤ s.last ∧ s.last ≤ greatest ∧ 0 < s.step

instance (s : Span) (greatest : Nat) : Decidable (s.Within greatest) :=
  inferInstanceAs (Decidable (_ ∧ _ ∧ _))

end Span

/-- The number that a text of digits writes. -/
def number? (t : Text) : Option Nat :=
  if t ≠ [] ∧ t.all Char.isDigit = true then some (digitsToNat t) else none

/-- The ends of `*` or of `a-b`. -/
def range? (greatest : Nat) (t : Text) : Option (Nat × Nat) :=
  if t = ['*'] then some (0, greatest)
  else (cutAt? '-' t).bind fun ends =>
    (number? ends.1).bind fun first => (number? ends.2).map fun last => (first, last)

/-- The values of an item: a number, a range, or a range with a step behind `/`. -/
def span? (greatest : Nat) (t : Text) : Option Span :=
  match cutAt? '/' t with
  | some (range, step) =>
    (range? greatest range).bind fun ends => (number? step).map fun n => ⟨ends.1, ends.2, n⟩
  | none =>
    ((range? greatest t).map fun ends => ⟨ends.1, ends.2, 1⟩).or
      ((number? t).map fun n => ⟨n, n, 1⟩)

/-- The values of an item, if the field has them. -/
def item? (greatest : Nat) (t : Text) : Option Span :=
  (span? greatest t).filter fun s => decide (s.Within greatest)

/-- A field takes a value: its items, which commas part, can all be read, and one of them holds it. -/
def FieldHolds (greatest : Nat) (field : Text) (v : Nat) : Prop :=
  (∀ t ∈ splitBy (· == ',') field, (item? greatest t).isSome = true) ∧
    ∃ t ∈ splitBy (· == ',') field, ∃ s, item? greatest t = some s ∧ s.Holds v

/-- The days, counted from some day on, that the last three fields of an expression select. What these
fields may hold is not settled here, but that three stars select every day. -/
structure Calendar where
  selects : List Text → Nat → Prop
  selects_stars : ∀ day, selects [['*'], ['*'], ['*']] day

/-- An expression fires at a minute, counted from midnight of the first day on. -/
def FiresAt (calendar : Calendar) (expression : String) (t : Nat) : Prop :=
  ∃ minute hour days, Text.words expression.toList = minute :: hour :: days ∧
    FieldHolds 59 minute (t % 60) ∧ FieldHolds 23 hour (t / 60 % 24) ∧ calendar.selects days (t / 1440)

/-- A character of the time of day in a cron expression. -/
def isClockChar (c : Char) : Bool := c.isDigit || "*/-,".toList.contains c

/-- The fields for the minute and the hour have characters of a time of day only. -/
def HasClock (t : Text) : Prop :=
  ∃ minute hour days, Text.words t = minute :: hour :: days ∧ ∀ c ∈ minute ++ hour, isClockChar c = true

/-- Times that are a number of minutes apart: there is one, and behind each the next comes after exactly
that many. -/
def Apart (n : Nat) (fires : Nat → Prop) : Prop :=
  (∃ t, fires t) ∧ ∀ t, fires t → fires (t + n) ∧ ∀ k, 0 < k → k < n → ¬fires (t + k)

/-! Fields that can be read are made of the characters of a time. -/

variable {t a b : Text} {c : Char} {n v greatest : Nat}

theorem number?_eq_some_iff : number? t = some n ↔ Decimal.IsDigits t ∧ digitsToNat t = n := by
  unfold number?
  split
  · rename_i h
    simp only [Decimal.IsDigits, Option.some.injEq, iff_and_self]
    exact fun _ => ⟨h.1, List.all_eq_true.1 h.2⟩
  · rename_i h
    simp only [reduceCtorEq, false_iff, not_and]
    exact fun hdigits => absurd ⟨hdigits.1, List.all_eq_true.2 hdigits.2⟩ h

theorem isClockChar_of_isDigit (h : c.isDigit = true) : isClockChar c = true := by
  rw [isClockChar, h, Bool.true_or]

theorem isClockChar_of_number? (h : number? t = some n) : ∀ c ∈ t, isClockChar c = true :=
  fun c hc => isClockChar_of_isDigit ((number?_eq_some_iff.1 h).1.2 c hc)

theorem isClockChar_of_append_cons (ha : ∀ c ∈ a, isClockChar c = true) (hc : isClockChar c = true)
    (hb : ∀ c ∈ b, isClockChar c = true) : ∀ d ∈ a ++ c :: b, isClockChar d = true := by
  intro d hd
  rcases List.mem_append.1 hd with hd | hd
  · exact ha d hd
  · rcases List.mem_cons.1 hd with rfl | hd
    · exact hc
    · exact hb d hd

theorem isClockChar_of_range? {ends : Nat × Nat} (h : range? greatest t = some ends) :
    ∀ c ∈ t, isClockChar c = true := by
  rw [range?] at h
  split at h
  · rename_i hstar
    rw [hstar]
    exact List.forall_mem_singleton.2 (by decide)
  · obtain ⟨⟨a, b⟩, hcut, h⟩ := Option.bind_eq_some_iff.1 h
    obtain ⟨first, hfirst, h⟩ := Option.bind_eq_some_iff.1 h
    obtain ⟨last, hlast, -⟩ := Option.map_eq_some_iff.1 h
    rw [Text.eq_of_cutAt? hcut]
    exact isClockChar_of_append_cons (isClockChar_of_number? hfirst) (by decide)
      (isClockChar_of_number? hlast)

theorem isClockChar_of_span? {s : Span} (h : span? greatest t = some s) :
    ∀ c ∈ t, isClockChar c = true := by
  rw [span?] at h
  split at h
  · rename_i range step hcut
    obtain ⟨ends, hrange, h⟩ := Option.bind_eq_some_iff.1 h
    obtain ⟨n, hstep, -⟩ := Option.map_eq_some_iff.1 h
    rw [Text.eq_of_cutAt? hcut]
    exact isClockChar_of_append_cons (isClockChar_of_range? hrange) (by decide)
      (isClockChar_of_number? hstep)
  · rcases Option.or_eq_some_iff.1 h with h | ⟨-, h⟩
    · obtain ⟨ends, hrange, -⟩ := Option.map_eq_some_iff.1 h
      exact isClockChar_of_range? hrange
    · obtain ⟨n, hnumber, -⟩ := Option.map_eq_some_iff.1 h
      exact isClockChar_of_number? hnumber

theorem isClockChar_of_fieldHolds (h : FieldHolds greatest t v) : ∀ c ∈ t, isClockChar c = true := by
  intro c hc
  by_cases hcomma : (c == ',') = true
  · obtain rfl := beq_iff_eq.1 hcomma
    decide
  · obtain ⟨item, hitem, hmem⟩ := Text.exists_mem_splitBy (· == ',') hc (by simpa using hcomma)
    obtain ⟨s, hs⟩ := Option.isSome_iff_exists.1 (h.1 item hitem)
    exact isClockChar_of_span? (Option.filter_eq_some_iff.1 hs).1 c hmem

/-- An expression that fires has a time of day. -/
theorem FiresAt.hasClock {calendar : Calendar} {expression : String} {time : Nat}
    (h : FiresAt calendar expression time) : HasClock expression.toList := by
  obtain ⟨minute, hour, days, hwords, hminute, hhour, -⟩ := h
  refine ⟨minute, hour, days, hwords, fun c hc => ?_⟩
  rcases List.mem_append.1 hc with hc | hc
  · exact isClockChar_of_fieldHolds hminute c hc
  · exact isClockChar_of_fieldHolds hhour c hc

/-! The fields of the expressions that stand for phrases. -/

theorem not_mem_toDigits (n : Nat) {c : Char} (hc : c.isDigit = false) : c ∉ Nat.toDigits 10 n := by
  intro h
  have hdigit := (Decimal.isDigits_toDigits n).2 c h
  rw [hc] at hdigit
  cases hdigit

theorem number?_toDigits (n : Nat) : number? (Nat.toDigits 10 n) = some n :=
  number?_eq_some_iff.2 ⟨Decimal.isDigits_toDigits n, Json.digitsToNat_toDigits n⟩

/-- A field of one item. -/
theorem fieldHolds_iff {s : Span} (hcomma : ',' ∉ t) (hs : span? greatest t = some s)
    (hwithin : s.Within greatest) : FieldHolds greatest t v ↔ s.Holds v := by
  have hsplit : splitBy (· == ',') t = [t] := by
    refine Text.splitBy_of_not_cut fun c hc => ?_
    rw [beq_eq_false_iff_ne]
    rintro rfl
    exact hcomma hc
  have hitem : item? greatest t = some s := by
    rw [item?, hs, Option.filter_some_pos (by simpa using hwithin)]
  simp [FieldHolds, hsplit, hitem]

theorem fieldHolds_star : FieldHolds greatest ['*'] v ↔ v ≤ greatest := by
  rw [fieldHolds_iff (s := ⟨0, greatest, 1⟩) (by decide) rfl ⟨Nat.zero_le _, Nat.le_refl _, Nat.one_pos⟩]
  simp [Span.Holds, Nat.mod_one]

theorem fieldHolds_step (hn : 0 < n) :
    FieldHolds greatest ('*' :: '/' :: Nat.toDigits 10 n) v ↔ v ≤ greatest ∧ v % n = 0 := by
  have hcomma : ',' ∉ '*' :: '/' :: Nat.toDigits 10 n := by
    simp [not_mem_toDigits n (c := ',') rfl]
  have hspan : span? greatest ('*' :: '/' :: Nat.toDigits 10 n) = some ⟨0, greatest, n⟩ := by
    have hcut : cutAt? '/' ('*' :: '/' :: Nat.toDigits 10 n) = some (['*'], Nat.toDigits 10 n) := rfl
    simp [span?, hcut, range?, number?_toDigits]
  rw [fieldHolds_iff hcomma hspan ⟨Nat.zero_le _, Nat.le_refl _, hn⟩]
  simp [Span.Holds]

theorem fieldHolds_number (hn : n ≤ greatest) : FieldHolds greatest (Nat.toDigits 10 n) v ↔ v = n := by
  have hnone (c : Char) (hc : c.isDigit = false) : cutAt? c (Nat.toDigits 10 n) = none :=
    Text.cutAt?_eq_none (not_mem_toDigits n hc)
  have hstar : Nat.toDigits 10 n ≠ ['*'] := by
    intro h
    exact not_mem_toDigits n (c := '*') rfl (by rw [h]; exact List.mem_cons_self)
  have hspan : span? greatest (Nat.toDigits 10 n) = some ⟨n, n, 1⟩ := by
    simp [span?, hnone '/' rfl, range?, hstar, hnone '-' rfl, number?_toDigits]
  rw [fieldHolds_iff (not_mem_toDigits n rfl) hspan ⟨Nat.le_refl _, hn, Nat.one_pos⟩]
  simp only [Span.Holds, Nat.mod_one, and_true]
  omega

/-! Times that come again. -/

variable {fires hourly : Nat → Prop} {period i j k : Nat}

theorem Apart.fires_add_mul (h : Apart n fires) (hi : fires i) (k : Nat) : fires (i + n * k) := by
  induction k with
  | zero => exact hi
  | succ k ih =>
    rw [Nat.mul_succ, ← Nat.add_assoc]
    exact (h.2 _ ih).1

/-- Two firings are some steps apart. -/
theorem Apart.dvd (h : Apart n fires) (hn : 0 < n) (hi : fires i) (hj : fires (i + j)) : n ∣ j := by
  by_contra hdvd
  have hrest : 0 < j % n := Nat.pos_of_ne_zero fun h0 => hdvd (Nat.dvd_of_mod_eq_zero h0)
  rw [← Nat.div_add_mod j n, ← Nat.add_assoc] at hj
  exact (h.2 _ (h.fires_add_mul hi _)).2 _ hrest (Nat.mod_lt j hn) hj

/-- What fires at the same times in every period in which it fires is in steps only if the period is made
of them. -/
theorem Apart.dvd_period (h : Apart n fires) (hn : 0 < n) (hperiod : n < period)
    (hsame : ∀ i j, fires i → fires j → fires (period * (i / period) + j % period)) : n ∣ period := by
  obtain ⟨⟨i, hi⟩, -⟩ := id h
  have hsplit : period * (i / period) + i % period = i := Nat.div_add_mod i period
  -- The first firing behind the period, and the one at the same time within the period.
  obtain ⟨k, hk, hkn⟩ : ∃ k, period - i % period ≤ n * k ∧ n * k < period - i % period + n := by
    refine ⟨(period - i % period + n - 1) / n, ?_⟩
    have hdiv := Nat.div_add_mod (period - i % period + n - 1) n
    have hmod := Nat.mod_lt (period - i % period + n - 1) hn
    omega
  have hlt : i % period < period := Nat.mod_lt i (by omega)
  have hnext := h.fires_add_mul hi k
  have htime : i + n * k = period * (i / period) + (i % period + n * k - period) + period := by omega
  have hrest : (i + n * k) % period = i % period + n * k - period := by
    rw [htime, Nat.add_mod_right, Nat.mul_add_mod, Nat.mod_eq_of_lt (by omega)]
  have hback := hsame _ _ hi hnext
  rw [hrest] at hback
  rw [htime] at hnext
  exact h.dvd hn hback hnext

theorem apart_of_dvd (hdvd : n ∣ period) (h : ∀ i, fires i ↔ i % period % n = 0) :
    Apart n fires := by
  have hfires (i : Nat) : fires i ↔ i % n = 0 := by
    rw [h, Nat.mod_mod_of_dvd i hdvd]
  refine ⟨⟨0, (hfires 0).2 (Nat.zero_mod n)⟩, fun i hi => ?_⟩
  have hi := (hfires i).1 hi
  refine ⟨(hfires _).2 (by rw [Nat.add_mod_right, hi]), fun k hk hkn hnext => ?_⟩
  have hsum := (hfires _).1 hnext
  rw [Nat.add_mod, hi, Nat.zero_add, Nat.mod_mod, Nat.mod_eq_of_lt hkn] at hsum
  omega

/-- Times on the hour are as many hours apart as their hours. -/
theorem Apart.of_hourly {minutes : Nat} (h : Apart n hourly) (hm : 0 < minutes)
    (hfires : ∀ i, fires i ↔ i % minutes = 0 ∧ hourly (i / minutes)) : Apart (minutes * n) fires := by
  have hmul (i : Nat) : fires (minutes * i) ↔ hourly i := by
    rw [hfires, Nat.mul_mod_right, Nat.mul_div_cancel_left i hm]
    exact and_iff_right rfl
  obtain ⟨⟨i, hi⟩, hapart⟩ := h
  refine ⟨⟨_, (hmul i).2 hi⟩, fun i hi => ?_⟩
  obtain ⟨i, rfl⟩ := Nat.dvd_of_mod_eq_zero ((hfires i).1 hi).1
  obtain ⟨hnext, hnone⟩ := hapart i ((hmul i).1 hi)
  refine ⟨by rwa [← Nat.mul_add, hmul], fun k hk hkn hk' => ?_⟩
  have hk0 : k % minutes = 0 := by
    have hmod := ((hfires _).1 hk').1
    rwa [Nat.mul_add_mod] at hmod
  obtain ⟨j, rfl⟩ := Nat.dvd_of_mod_eq_zero hk0
  rw [← Nat.mul_add, hmul] at hk'
  exact hnone j (Nat.pos_of_mul_pos_left hk) (Nat.lt_of_mul_lt_mul_left hkn) hk'

/-! When expressions fire. -/

variable {calendar : Calendar} {expression : String} {minute hour : Text} {days : List Text}
  {x : Schedule} {time : Nat} {schedule : Option String}

theorem firesAt_iff (hwords : Text.words expression.toList = minute :: hour :: days) :
    FiresAt calendar expression time ↔ FieldHolds 59 minute (time % 60) ∧
      FieldHolds 23 hour (time / 60 % 24) ∧ calendar.selects days (time / 1440) := by
  constructor
  · rintro ⟨_, _, _, hfields, h⟩
    rw [hwords] at hfields
    cases hfields
    exact h
  · intro h
    exact ⟨minute, hour, days, hwords, h⟩

/-- An expression that fires at a minute, at an hour and on a day fires at that minute of that hour of that
day. -/
theorem FiresAt.combine (hi : FiresAt calendar expression i) (hj : FiresAt calendar expression j)
    (hk : FiresAt calendar expression k) (hminute : time % 60 = i % 60)
    (hhour : time / 60 % 24 = j / 60 % 24) (hday : time / 1440 = k / 1440) :
    FiresAt calendar expression time := by
  obtain ⟨_, _, _, hwords, hi, -, -⟩ := hi
  rw [firesAt_iff hwords] at hj hk ⊢
  rw [hminute, hhour, hday]
  exact ⟨hi, hj.2.1, hk.2.2⟩

/-- No expression counts minutes that an hour is not made of. -/
theorem dvd_of_apart_minutes (hn : 0 < n) (hlt : n < 60) (h : Apart n (FiresAt calendar expression)) :
    n ∣ 60 := by
  refine h.dvd_period hn hlt fun i j hi hj => hj.combine hi hi ?_ ?_ ?_
  · omega
  · omega
  · omega

/-- No expression counts hours that a day is not made of. -/
theorem dvd_of_apart_hours (hn : 0 < n) (hlt : n < 24) (h : Apart (60 * n) (FiresAt calendar expression)) :
    n ∣ 24 := by
  have hdvd : 60 * n ∣ 60 * 24 := by
    refine h.dvd_period (by omega) (by omega) fun i j hi hj => hj.combine hj hi ?_ ?_ ?_
    · omega
    · omega
    · omega
  exact Nat.dvd_of_mul_dvd_mul_left (by decide) hdvd

theorem Says.firesAt_iff (h : Says t x) (hcolumns : x.columns = [minute, hour, ['*'], ['*'], ['*']]) :
    FiresAt calendar x.expression time ↔
      FieldHolds 59 minute (time % 60) ∧ FieldHolds 23 hour (time / 60 % 24) := by
  obtain ⟨-, hall, hspaced⟩ := h.spaced_columns
  have hwords := hspaced.words_eq fun f hf => isSolid_of_isField (hall f hf)
  rw [hcolumns] at hwords
  rw [EdgeFunction.firesAt_iff hwords]
  simp [calendar.selects_stars]

theorem minute_le : time % 60 ≤ 59 := Nat.le_of_lt_succ (Nat.mod_lt time (by decide))

theorem hour_le : time / 60 % 24 ≤ 23 := Nat.le_of_lt_succ (Nat.mod_lt _ (by decide))

theorem firesAt_minutes_iff (h : Says t (.minutes n)) (hn : 0 < n) :
    FiresAt calendar (Schedule.minutes n).expression time ↔ time % 60 % n = 0 := by
  rw [h.firesAt_iff rfl, fieldHolds_step hn, fieldHolds_star]
  simp [minute_le, hour_le]

theorem firesAt_hours_iff (h : Says t (.hours n)) (hn : 0 < n) :
    FiresAt calendar (Schedule.hours n).expression time ↔ time % 60 = 0 ∧ time / 60 % 24 % n = 0 := by
  have hzero : FieldHolds 59 ['0'] (time % 60) ↔ time % 60 = 0 := fieldHolds_number (Nat.zero_le 59)
  rw [h.firesAt_iff rfl, fieldHolds_step hn, hzero]
  simp [hour_le]

theorem firesAt_daily_iff {hour minute : Nat} (h : Says t (.daily hour minute))
    (hrange : (Schedule.daily hour minute).InRange) :
    FiresAt calendar (Schedule.daily hour minute).expression time ↔ time % 1440 = 60 * hour + minute := by
  obtain ⟨hhour, hminute⟩ := hrange
  rw [h.firesAt_iff rfl, fieldHolds_number hminute, fieldHolds_number hhour]
  omega

/-- A phrase stands for itself exactly if it has five fields, whatever letters are in them, and then it
fires only if the fields for the minute and the hour have a time of day. Where a phrase counts minutes that
an hour is made of, or hours that a day is made of, the firing times are that far apart; where it counts
others, those of no expression are. Where it tells the time of day, that is when it fires. All else has the
default and a note. Only a numeral with more digits than are read keeps a phrase from having any
expression. -/
theorem toCron_fires (calendar : Calendar) (schedule : Option String)
    (hread : ∀ unit ∈ units, ∀ numeral, Counts unit numeral (phraseOf schedule) →
      numeral.length ≤ Text.digitLimit) :
    ∃ cron, toCron schedule = .ok cron ∧
      (cron = ⟨String.ofList (phraseOf schedule), none⟩ ↔ IsExpression (phraseOf schedule)) ∧
      (IsExpression (phraseOf schedule) →
        ∀ time, FiresAt calendar cron.expression time → HasClock (phraseOf schedule)) ∧
      (∀ n, Says (phraseOf schedule) (.minutes n) → 1 ≤ n → n ≤ 59 → cron.note = none ∧
        (n ∣ 60 → Apart n (FiresAt calendar cron.expression)) ∧
        (¬n ∣ 60 → ∀ expression, ¬Apart n (FiresAt calendar expression))) ∧
      (∀ n, Says (phraseOf schedule) (.hours n) → 1 ≤ n → n ≤ 23 → cron.note = none ∧
        (n ∣ 24 → Apart (60 * n) (FiresAt calendar cron.expression)) ∧
        (¬n ∣ 24 → ∀ expression, ¬Apart (60 * n) (FiresAt calendar expression))) ∧
      (∀ hour minute, Says (phraseOf schedule) (.daily hour minute) → hour ≤ 23 → minute ≤ 59 →
        cron.note = none ∧
          ∀ time, FiresAt calendar cron.expression time ↔ time % 1440 = 60 * hour + minute) ∧
      ((∀ x, Says (phraseOf schedule) x → ¬x.InRange) →
        cron.expression = defaultCron ∧ cron.note.isSome = true) := by
  have hfault : scheduleFault? schedule = none := by
    refine Option.eq_none_iff_forall_ne_some.2 fun f hf => ?_
    obtain ⟨unit, hunit, numeral, hcounts, hlong, -⟩ := scheduleFault?_eq_some_iff.1 hf
    exact absurd (hread unit hunit numeral hcounts) (Nat.not_le.2 hlong)
  have hfields (h : IsExpression (phraseOf schedule)) :
      cronOf schedule = ⟨String.ofList (phraseOf schedule), none⟩ :=
    cronOf_eq (x := .fields (phraseOf schedule)) ⟨rfl, h⟩ trivial
  refine ⟨cronOf schedule, toCron_eq_ok_iff.2 ⟨hfault, rfl⟩, ⟨fun h => ?_, hfields⟩, ?_, ?_, ?_, ?_, ?_⟩
  · have hexpression := isExpression_cronOf schedule
    rwa [h, String.toList_ofList] at hexpression
  · intro h time hfires
    rw [hfields h] at hfires
    have hclock := hfires.hasClock
    rwa [String.toList_ofList] at hclock
  · intro n hsaid h1 h59
    rw [cronOf_eq hsaid ⟨h1, h59⟩]
    refine ⟨rfl, fun hdvd => ?_, fun hdvd expression h => hdvd (dvd_of_apart_minutes h1 (by omega) h)⟩
    exact apart_of_dvd hdvd fun _ => firesAt_minutes_iff hsaid h1
  · intro n hsaid h1 h23
    rw [cronOf_eq hsaid ⟨h1, h23⟩]
    refine ⟨rfl, fun hdvd => ?_, fun hdvd expression h => hdvd (dvd_of_apart_hours h1 (by omega) h)⟩
    have hhours : Apart n fun i => i % 24 % n = 0 := apart_of_dvd hdvd fun _ => Iff.rfl
    exact hhours.of_hourly (by decide) fun _ => firesAt_hours_iff hsaid h1
  · intro hour minute hsaid hhour hminute
    rw [cronOf_eq hsaid ⟨hhour, hminute⟩]
    exact ⟨rfl, fun _ => firesAt_daily_iff hsaid ⟨hhour, hminute⟩⟩
  · intro hnone
    rcases cronOf_cases schedule with ⟨x, hx, hrange, -⟩ | ⟨-, hdefault⟩
    · exact absurd hrange (hnone x hx)
    · exact hdefault

/-- Every day, if the fields for the day are stars, and else none. -/
def Calendar.stars : Calendar where
  selects days _ := days = [['*'], ['*'], ['*']]
  selects_stars _ := rfl

/-- Seven minutes have an expression, though none fires that far apart. -/
theorem toCron_fires_sevens : toCron (some "every 7 minutes") = .ok ⟨"*/7 * * * *", none⟩ ∧
    ∀ expression, ¬Apart 7 (FiresAt Calendar.stars expression) := by
  have hcron : toCron (some "every 7 minutes") = .ok ⟨"*/7 * * * *", none⟩ := by decide +kernel
  have hsaid : Says (phraseOf (some "every 7 minutes")) (.minutes 7) :=
    (everyWithin?_minute_iff.1 (by decide +kernel)).1
  have hread : ∀ unit ∈ units, ∀ numeral, Counts unit numeral (phraseOf (some "every 7 minutes")) →
      numeral.length ≤ Text.digitLimit := by
    intro unit hunit numeral hcounts
    have hwords : Text.words (phraseOf (some "every 7 minutes")) =
        ["every".toList, "7".toList, "minutes".toList] := by decide +kernel
    obtain ⟨_, _, hnumeral, -⟩ := hcounts.words_eq hunit
    rw [hwords] at hnumeral
    cases hnumeral
    decide
  obtain ⟨cron, -, -, -, hminutes, -⟩ := toCron_fires Calendar.stars (some "every 7 minutes") hread
  exact ⟨hcron, (hminutes 7 hsaid (by decide) (by decide)).2.2 (by decide)⟩

/-- Words of any kind pass for an expression, though it never fires. -/
theorem nine_am_never_fires :
    toCron (some "every monday at nine am") = .ok ⟨"every monday at nine am", none⟩ ∧
      ¬HasClock "every monday at nine am".toList ∧
      ∀ time, ¬FiresAt Calendar.stars "every monday at nine am" time := by
  have hclock : ¬HasClock "every monday at nine am".toList := by
    rintro ⟨minute, hour, days, hwords, hall⟩
    have hfields : Text.words "every monday at nine am".toList =
        ["every".toList, "monday".toList, "at".toList, "nine".toList, "am".toList] := by decide +kernel
    rw [hfields] at hwords
    cases hwords
    exact absurd (hall 'e' (by decide)) (by decide)
  exact ⟨by decide +kernel, hclock, fun _ h => hclock h.hasClock⟩

end BackendMigration.EdgeFunction
