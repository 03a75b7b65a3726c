import BackendMigration.EdgeFunction.Schedule
import BackendMigration.Proofs.Pattern.Whole
import BackendMigration.Proofs.Text.Pieces

/-! What a schedule phrase asks for, read off its words. -/
namespace BackendMigration.EdgeFunction

open Pattern
open Text (IsGap IsSolid Spaced)

/-- A word in capitals or small letters. -/
def Spelled (word : String) (t : Text) : Prop :=
  List.Forall₂ (fun c a => (CharClass.anyCase c).holds a = true) word.toList t

/-- Decimal digits, at least one. -/
def IsNumeral (t : Text) : Prop := t ≠ [] ∧ ∀ c ∈ t, Text.isDecimal c = true

/-- A unit of time, with or without the ending of a plural. -/
def IsUnit (unit : String) (t : Text) : Prop :=
  ∃ stem ending, Spelled unit stem ∧ (ending = [] ∨ Spelled "s" ending) ∧ t = stem ++ ending

/-- A character of a cron expression: a digit, a Latin letter or one of a few signs. -/
def isCronChar (c : Char) : Bool :=
  Text.isDecimal c || c.isAlpha || "*/,-?#".toList.contains c

/-- A field of a cron expression. -/
def IsField (t : Text) : Prop := t ≠ [] ∧ ∀ c ∈ t, isCronChar c = true

/-- Five fields. -/
def IsExpression (t : Text) : Prop :=
  ∃ fields, fields.length = 5 ∧ (∀ f ∈ fields, IsField f) ∧ Spaced fields t

/-- `every`, a number and a unit. -/
def Counts (unit : String) (numeral t : Text) : Prop :=
  ∃ every unit', Spelled "every" every ∧ IsNumeral numeral ∧ IsUnit unit unit' ∧
    Spaced [every, numeral, unit'] t

/-- `every day` and the time of day: an hour of one or two digits and a minute of two. -/
def TellsTime (hour minute t : Text) : Prop :=
  ∃ every day, Spelled "every" every ∧ Spelled "day" day ∧ IsNumeral hour ∧ hour.length ≤ 2 ∧
    IsNumeral minute ∧ minute.length = 2 ∧ Spaced [every, day, hour ++ ':' :: minute] t

/-! The words are solid. -/

variable {t word numeral hour minute : Text} {unit : String}

theorem isBlank_eq_false_of_holds {f : Char → Bool} (hlow : ∀ n ≤ 32, f (Char.ofNat n) = false)
    (hwide : ∀ n ∈ Text.wideBlanks, f (Char.ofNat n) = false) {c : Char} (h : f c = true) :
    Text.isBlank c = false := by
  by_contra hblank
  rw [Text.eq_false_of_isBlank hlow hwide (by simpa using hblank)] at h
  cases h

theorem isBlank_of_isDecimal {c : Char} (h : Text.isDecimal c = true) : Text.isBlank c = false :=
  isBlank_eq_false_of_holds (by decide +kernel) (by decide +kernel) h

theorem isBlank_of_isCronChar {c : Char} (h : isCronChar c = true) : Text.isBlank c = false :=
  isBlank_eq_false_of_holds (by decide +kernel) (by decide +kernel) h

theorem isSolid_of_isNumeral (h : IsNumeral t) : IsSolid t :=
  ⟨h.1, fun c hc => isBlank_of_isDecimal (h.2 c hc)⟩

theorem isSolid_of_isField (h : IsField t) : IsSolid t :=
  ⟨h.1, fun c hc => isBlank_of_isCronChar (h.2 c hc)⟩

/-- The letters of the words that phrases are made of. -/
def phraseLetters : List Char := "everydayminutehours".toList

theorem isBlank_of_anyCase {c a : Char} (hc : c ∈ phraseLetters)
    (h : (CharClass.anyCase c).holds a = true) : Text.isBlank a = false := by
  have hany : phraseLetters.any (fun c => (CharClass.anyCase c).holds a) = true :=
    List.any_eq_true.2 ⟨c, hc, h⟩
  exact isBlank_eq_false_of_holds (f := fun a => phraseLetters.any fun c => (CharClass.anyCase c).holds a)
    (by decide +kernel) (by decide +kernel) hany

theorem Spelled.length_eq {w : String} (h : Spelled w t) : t.length = w.toList.length :=
  (List.Forall₂.length_eq h).symm

theorem Spelled.forall_mem {w : String} (h : Spelled w t) (hw : w.toList ⊆ phraseLetters) :
    ∀ a ∈ t, Text.isBlank a = false := by
  intro a ha
  obtain ⟨i, hi, rfl⟩ := List.getElem_of_mem ha
  have hi' : i < w.toList.length := h.length_eq ▸ hi
  exact isBlank_of_anyCase (hw (List.getElem_mem hi')) (List.Forall₂.get h hi' hi)

theorem Spelled.isSolid {w : String} (h : Spelled w t) (hw : w.toList ⊆ phraseLetters)
    (hne : w.toList ≠ []) : IsSolid t := by
  refine ⟨?_, h.forall_mem hw⟩
  rintro rfl
  exact hne (List.length_eq_zero_iff.1 h.length_eq.symm)

theorem IsUnit.isSolid (h : IsUnit unit t) (hunit : unit.toList ⊆ phraseLetters)
    (hne : unit.toList ≠ []) : IsSolid t := by
  obtain ⟨stem, ending, hstem, hending, rfl⟩ := h
  have hsolid := hstem.isSolid hunit hne
  refine ⟨by simp [hsolid.1], fun c hc => ?_⟩
  rcases List.mem_append.1 hc with hc | hc
  · exact hsolid.2 c hc
  · rcases hending with rfl | hending
    · cases hc
    · exact hending.forall_mem (by decide) c hc

theorem isSolid_time (hh : IsNumeral hour) (hm : IsNumeral minute) : IsSolid (hour ++ ':' :: minute) := by
  refine ⟨by simp, fun c hc => ?_⟩
  rcases List.mem_append.1 hc with hc | hc
  · exact isBlank_of_isDecimal (hh.2 c hc)
  · rcases List.mem_cons.1 hc with rfl | hc
    · decide
    · exact isBlank_of_isDecimal (hm.2 c hc)

/-! A phrase is read in one way. -/

/-- The units of time that are counted. -/
def units : List String := ["minute", "hour"]

theorem IsUnit.isSolid_of_mem (h : IsUnit unit t) (hunit : unit ∈ units) : IsSolid t := by
  have hall : ∀ unit ∈ units, unit.toList ⊆ phraseLetters ∧ unit.toList ≠ [] := by decide
  exact h.isSolid (hall unit hunit).1 (hall unit hunit).2

theorem Counts.spaced (h : Counts unit numeral t) (hunit : unit ∈ units) :
    ∃ every unit', IsNumeral numeral ∧ IsUnit unit unit' ∧ Spaced [every, numeral, unit'] t ∧
      ∀ w ∈ [every, numeral, unit'], IsSolid w := by
  obtain ⟨every, unit', hevery, hnumeral, hunit', hspaced⟩ := h
  refine ⟨every, unit', hnumeral, hunit', hspaced, fun w hw => ?_⟩
  rcases List.mem_cons.1 hw with rfl | hw
  · exact hevery.isSolid (by decide) (by decide)
  · rcases List.mem_cons.1 hw with rfl | hw
    · exact isSolid_of_isNumeral hnumeral
    · rw [List.mem_singleton.1 hw]
      exact hunit'.isSolid_of_mem hunit

theorem Counts.words_eq (h : Counts unit numeral t) (hunit : unit ∈ units) :
    ∃ every unit', Text.words t = [every, numeral, unit'] ∧ IsNumeral numeral ∧ IsUnit unit unit' := by
  obtain ⟨every, unit', hnumeral, hunit', hspaced, hsolid⟩ := h.spaced hunit
  exact ⟨every, unit', hspaced.words_eq hsolid, hnumeral, hunit'⟩

theorem Counts.strip_eq (h : Counts unit numeral t) (hunit : unit ∈ units) : Text.strip t = t := by
  obtain ⟨_, _, -, -, hspaced, hsolid⟩ := h.spaced hunit
  exact hspaced.strip_eq hsolid

theorem TellsTime.words_eq (h : TellsTime hour minute t) :
    ∃ every day, Text.words t = [every, day, hour ++ ':' :: minute] ∧ Spelled "day" day := by
  obtain ⟨every, day, hevery, hday, hhour, -, hminute, -, hspaced⟩ := h
  refine ⟨every, day, hspaced.words_eq ?_, hday⟩
  intro w hw
  rcases List.mem_cons.1 hw with rfl | hw
  · exact hevery.isSolid (by decide) (by decide)
  · rcases List.mem_cons.1 hw with rfl | hw
    · exact hday.isSolid (by decide) (by decide)
    · rw [List.mem_singleton.1 hw]
      exact isSolid_time hhour hminute

theorem IsExpression.length_words (h : IsExpression t) : (Text.words t).length = 5 := by
  obtain ⟨fields, hlength, hall, hspaced⟩ := h
  rw [hspaced.words_eq fun f hf => isSolid_of_isField (hall f hf), hlength]

variable {numeral' hour' minute' : Text} {unit' : String}

theorem IsUnit.length (h : IsUnit unit t) :
    unit.toList.length ≤ t.length ∧ t.length ≤ unit.toList.length + 1 := by
  obtain ⟨stem, ending, hstem, hending, rfl⟩ := h
  have hlength := hstem.length_eq
  rcases hending with rfl | hending
  · simp [hlength]
  · have hone := hending.length_eq
    rw [List.length_append, hlength, hone]
    exact ⟨Nat.le_add_right _ _, Nat.le_refl _⟩

theorem Counts.numeral_eq (h : Counts unit numeral t) (hunit : unit ∈ units) (hunit' : unit' ∈ units)
    (h' : Counts unit' numeral' t) : numeral = numeral' := by
  obtain ⟨every, u, hwords, -⟩ := h.words_eq hunit
  obtain ⟨every', u', hwords', -⟩ := h'.words_eq hunit'
  rw [hwords] at hwords'
  cases hwords'
  rfl

theorem Counts.unit_eq (h : Counts unit numeral t) (hunit : unit ∈ units) (hunit' : unit' ∈ units)
    (h' : Counts unit' numeral' t) : unit = unit' := by
  obtain ⟨every, u, hwords, -, hu⟩ := h.words_eq hunit
  obtain ⟨every', u', hwords', -, hu'⟩ := h'.words_eq hunit'
  rw [hwords] at hwords'
  cases hwords'
  have hlength := hu.length
  have hlength' := hu'.length
  have hminute : "minute".toList.length = 6 := rfl
  have hhour : "hour".toList.length = 4 := rfl
  simp only [units, List.mem_cons, List.not_mem_nil, or_false] at hunit hunit'
  rcases hunit with rfl | rfl <;> rcases hunit' with rfl | rfl
  · rfl
  · omega
  · omega
  · rfl

theorem TellsTime.eq (h : TellsTime hour minute t) (h' : TellsTime hour' minute' t) :
    hour = hour' ∧ minute = minute' := by
  obtain ⟨every, day, hwords, -⟩ := h.words_eq
  obtain ⟨every', day', hwords', -⟩ := h'.words_eq
  obtain ⟨_, _, _, _, _, _, _, hminutes, _⟩ := h
  obtain ⟨_, _, _, _, _, _, _, hminutes', _⟩ := h'
  rw [hwords] at hwords'
  simp only [List.cons.injEq, and_true] at hwords'
  have hlength : (':' :: minute).length = (':' :: minute').length := by
    rw [List.length_cons, List.length_cons, hminutes, hminutes']
  obtain ⟨hhour, hminute⟩ := List.append_inj' hwords'.2.2 hlength
  exact ⟨hhour, (List.cons.inj hminute).2⟩

/-- No numeral is a day. -/
theorem Counts.not_tellsTime (h : Counts unit numeral t) (hunit : unit ∈ units) :
    ¬TellsTime hour minute t := by
  intro h'
  obtain ⟨every, u, hwords, hnumeral, -⟩ := h.words_eq hunit
  obtain ⟨every', day, hwords', hday⟩ := h'.words_eq
  rw [hwords] at hwords'
  cases hwords'
  have hday : List.Forall₂ (fun c a => (CharClass.anyCase c).holds a = true) ['d', 'a', 'y'] _ := hday
  obtain ⟨a, r, ha, -, rfl⟩ := List.forall₂_cons_left_iff.1 hday
  have hdecimal := hnumeral.2 a List.mem_cons_self
  have hcase : CharClass.anyCase 'd' = .union (.only 'd') (.only 'D') := by decide
  have hletter : a = 'd' ∨ a = 'D' := by
    rw [hcase] at ha
    simpa using ha
  rcases hletter with rfl | rfl <;> exact absurd hdecimal (by decide)

/-! What the patterns of schedules take. -/

theorem spells_cronField : cronField.Spells t ↔ IsField t := by
  have hchar (c : Char) : (CharClass.union .decimal (.union (.between 'A' 'Z') (.union (.between 'a' 'z')
      (.oneOf "*/,-?#")))).holds c = isCronChar c := by
    have hupper : (CharClass.between 'A' 'Z').holds c = c.isUpper := (Bool.decide_and _ _).symm
    have hlower : (CharClass.between 'a' 'z').holds c = c.isLower := rfl
    have halpha : c.isAlpha = (c.isUpper || c.isLower) := rfl
    rw [CharClass.holds_union, CharClass.holds_union, CharClass.holds_union, CharClass.holds_oneOf,
      hupper, hlower, isCronChar, halpha, Bool.or_assoc, Bool.or_assoc]
    rfl
  unfold cronField
  simp only [spells_repeated_one, IsField, hchar]

theorem spells_gap : someBlanks.Spells t ↔ IsGap t := by
  rw [spells_someBlanks, IsGap, and_comm]

theorem spells_fields (n : Nat) :
    (concat (cronField :: List.replicate n (concat [someBlanks, cronField]))).Spells t ↔
      ∃ fields, fields.length = n + 1 ∧ (∀ f ∈ fields, IsField f) ∧ Spaced fields t := by
  induction n generalizing t with
  | zero =>
    rw [List.replicate_zero, spells_concat_cons]
    constructor
    · rintro ⟨f, _, hf, rfl, rfl⟩
      rw [List.append_nil]
      exact ⟨[f], rfl, by simpa using spells_cronField.1 hf, .last f⟩
    · rintro ⟨fields, hlength, hall, h⟩
      cases h with
      | last =>
        exact ⟨t, [], spells_cronField.2 (hall t List.mem_cons_self), rfl, (List.append_nil t).symm⟩
      | cons _ _ h =>
        obtain rfl := List.length_eq_zero_iff.1 (Nat.succ.inj hlength)
        cases h
  | succ n ih =>
    rw [List.replicate_succ, spells_concat_cons]
    constructor
    · rintro ⟨f, _, hf, ⟨_, v, ⟨b, _, hb, ⟨g, _, hg, rfl, rfl⟩, rfl⟩, hv, rfl⟩, rfl⟩
      obtain ⟨fields, hlength, hall, h⟩ := ih.1 ⟨g, v, hg, hv, rfl⟩
      refine ⟨f :: fields, by rw [List.length_cons, hlength], ?_, ?_⟩
      · exact List.forall_mem_cons.2 ⟨spells_cronField.1 hf, hall⟩
      · have hspaced := Spaced.cons f (spells_gap.1 hb) h
        simpa using hspaced
    · rintro ⟨fields, hlength, hall, h⟩
      cases h with
      | last => cases hlength
      | @cons f b t fs hb h =>
        obtain ⟨hf, hall⟩ := List.forall_mem_cons.1 hall
        obtain ⟨g, v, hg, hv, rfl⟩ := ih.2 ⟨fs, Nat.succ.inj hlength, hall, h⟩
        refine ⟨f, b ++ (g ++ v), spells_cronField.2 hf, ⟨b ++ g, v, ?_, hv, by simp⟩, rfl⟩
        exact ⟨b, g, spells_gap.2 hb, ⟨g, [], hg, rfl, by simp⟩, rfl⟩

theorem isSome_cronExpression_iff : (cronExpression.matchAll? t).isSome = true ↔ IsExpression t := by
  rw [isSome_matchAll?_iff (by decide)]
  exact spells_fields 4

theorem spells_numeral : (repeated (one .decimal)).Spells t ↔ IsNumeral t := spells_repeated_one

theorem spaced_three_iff {w w' w'' : Text} : Spaced [w, w', w''] t ↔
    ∃ b b', IsGap b ∧ IsGap b' ∧ t = w ++ (b ++ (w' ++ (b' ++ w''))) := by
  constructor
  · intro h
    cases h with
    | cons _ hb h =>
      cases h with
      | cons _ hb' h =>
        cases h with
        | last => exact ⟨_, _, hb, hb', rfl⟩
        | cons _ _ h => cases h
  · rintro ⟨b, b', hb, hb', rfl⟩
    exact .cons w hb (.cons w' hb' (.last w''))

/-- A match of a counting phrase keeps its numeral. -/
theorem counts_of_matchAll? {m : Match} (h : (everyNumber unit).matchAll? t = some m) :
    ∃ numeral, Counts unit numeral t ∧ m.part? "number" = some numeral := by
  have h : (everyNumber unit).matchThen _ (.between [] t) [] = some m := h
  obtain ⟨every, r, hevery, rfl, h⟩ := exists_of_matchThen_cons (parts_textAnyCase "every") h
  obtain ⟨b, r, hb, rfl, h⟩ := exists_of_matchThen_cons (p := someBlanks) rfl h
  obtain ⟨numeral, r, hnumeral, rfl, h⟩ := exists_of_matchThen_part_cons rfl h
  obtain ⟨b', r, hb', rfl, h⟩ := exists_of_matchThen_cons (p := someBlanks) rfl h
  obtain ⟨stem, r, hstem, rfl, h⟩ := exists_of_matchThen_cons (parts_textAnyCase unit) h
  obtain ⟨ending, r, hending, rfl, h⟩ := exists_of_matchThen_cons (by decide) h
  obtain ⟨rfl, hparts⟩ := parts_of_matchThen_atEnd h
  have hunit : IsUnit unit (stem ++ (ending ++ [])) := by
    rw [List.append_nil]
    exact ⟨stem, ending, spells_textAnyCase.1 hstem, hending.symm.imp_right spells_textAnyCase.1, rfl⟩
  refine ⟨numeral, ⟨every, _, spells_textAnyCase.1 hevery, spells_numeral.1 hnumeral, hunit, ?_⟩, ?_⟩
  · exact spaced_three_iff.2 ⟨b, b', spells_gap.1 hb, spells_gap.1 hb', rfl⟩
  · rw [Match.part?, hparts]
    rfl

theorem isSome_matchAll?_of_counts (h : Counts unit numeral t) :
    ((everyNumber unit).matchAll? t).isSome = true := by
  have hp : (everyNumber unit).unconditional = true := by
    simp [everyNumber, concat, unconditional, unconditional_textAnyCase, someBlanks, repeated, Pattern.optional]
  obtain ⟨every, _, hevery, hnumeral, ⟨stem, ending, hstem, hending, rfl⟩, hspaced⟩ := h
  obtain ⟨b, b', hb, hb', rfl⟩ := spaced_three_iff.1 hspaced
  refine (isSome_matchAll?_iff hp).2 ⟨every, _, spells_textAnyCase.2 hevery, ?_, rfl⟩
  refine ⟨b, _, spells_gap.2 hb, ⟨numeral, _, spells_numeral.2 hnumeral, ?_, rfl⟩, rfl⟩
  refine ⟨b', _, spells_gap.2 hb', ⟨stem, _, spells_textAnyCase.2 hstem, ?_, rfl⟩, rfl⟩
  exact ⟨ending, [], hending.symm.imp_left spells_textAnyCase.2, rfl, (List.append_nil ending).symm⟩

theorem spells_hour : (concat [one .decimal, optional (one .decimal)]).Spells t ↔
    IsNumeral t ∧ t.length ≤ 2 := by
  constructor
  · rintro ⟨_, _, ⟨a, ha, rfl⟩, ⟨_, _, ⟨b, hb, rfl⟩ | rfl, rfl, rfl⟩, rfl⟩
    · exact ⟨⟨by simp, List.forall_mem_cons.2 ⟨ha, List.forall_mem_singleton.2 hb⟩⟩, Nat.le_refl 2⟩
    · exact ⟨⟨by simp, List.forall_mem_singleton.2 ha⟩, Nat.le_succ 1⟩
  · rintro ⟨⟨hne, hall⟩, hlength⟩
    match t, hne, hall, hlength with
    | [a], _, hall, _ =>
      exact ⟨[a], [], ⟨a, hall a (by simp), rfl⟩, ⟨[], [], .inr rfl, rfl, rfl⟩, rfl⟩
    | [a, b], _, hall, _ =>
      exact ⟨[a], [b], ⟨a, hall a (by simp), rfl⟩,
        ⟨[b], [], .inl ⟨b, hall b (by simp), rfl⟩, rfl, rfl⟩, rfl⟩

theorem spells_minute : (concat [one .decimal, one .decimal]).Spells t ↔
    IsNumeral t ∧ t.length = 2 := by
  constructor
  · rintro ⟨_, _, ⟨a, ha, rfl⟩, ⟨_, _, ⟨b, hb, rfl⟩, rfl, rfl⟩, rfl⟩
    exact ⟨⟨by simp, List.forall_mem_cons.2 ⟨ha, List.forall_mem_singleton.2 hb⟩⟩, rfl⟩
  · rintro ⟨⟨hne, hall⟩, hlength⟩
    match t, hall, hlength with
    | [a, b], hall, _ =>
      exact ⟨[a], [b], ⟨a, hall a (by simp), rfl⟩, ⟨[b], [], ⟨b, hall b (by simp), rfl⟩, rfl, rfl⟩, rfl⟩

/-- A match of a phrase for a time of day keeps its hour and minute. -/
theorem tellsTime_of_matchAll? {m : Match} (h : everyDayAt.matchAll? t = some m) :
    ∃ hour minute, TellsTime hour minute t ∧ m.part? "hour" = some hour ∧
      m.part? "minute" = some minute := by
  have h : everyDayAt.matchThen _ (.between [] t) [] = some m := h
  obtain ⟨every, r, hevery, rfl, h⟩ := exists_of_matchThen_cons (parts_textAnyCase "every") h
  obtain ⟨b, r, hb, rfl, h⟩ := exists_of_matchThen_cons (p := someBlanks) rfl h
  obtain ⟨day, r, hday, rfl, h⟩ := exists_of_matchThen_cons (parts_textAnyCase "day") h
  obtain ⟨b', r, hb', rfl, h⟩ := exists_of_matchThen_cons (p := someBlanks) rfl h
  obtain ⟨hour, r, hhour, rfl, h⟩ := exists_of_matchThen_part_cons rfl h
  obtain ⟨colon, r, hcolon, rfl, h⟩ := exists_of_matchThen_cons (p := text ":") rfl h
  obtain ⟨minute, r, hminute, rfl, h⟩ := exists_of_matchThen_part_cons rfl h
  obtain ⟨rfl, hparts⟩ := parts_of_matchThen_atEnd h
  obtain rfl : colon = [':'] := spells_text.1 hcolon
  obtain ⟨hhour, hhours⟩ := spells_hour.1 hhour
  obtain ⟨hminute, hminutes⟩ := spells_minute.1 hminute
  refine ⟨hour, minute, ⟨every, day, spells_textAnyCase.1 hevery, spells_textAnyCase.1 hday, hhour, hhours,
    hminute, hminutes, ?_⟩, ?_, ?_⟩
  · refine spaced_three_iff.2 ⟨b, b', spells_gap.1 hb, spells_gap.1 hb', ?_⟩
    rw [List.append_nil]
    rfl
  · rw [Match.part?, hparts]
    rfl
  · rw [Match.part?, hparts]
    rfl

theorem isSome_matchAll?_of_tellsTime (h : TellsTime hour minute t) :
    (everyDayAt.matchAll? t).isSome = true := by
  obtain ⟨every, day, hevery, hday, hhour, hhours, hminute, hminutes, hspaced⟩ := h
  obtain ⟨b, b', hb, hb', rfl⟩ := spaced_three_iff.1 hspaced
  refine (isSome_matchAll?_iff (by decide)).2 ⟨every, _, spells_textAnyCase.2 hevery, ?_, rfl⟩
  refine ⟨b, _, spells_gap.2 hb, ⟨day, _, spells_textAnyCase.2 hday, ?_, rfl⟩, rfl⟩
  refine ⟨b', _, spells_gap.2 hb', ⟨hour, _, spells_hour.2 ⟨hhour, hhours⟩, ?_, rfl⟩, rfl⟩
  refine ⟨[':'], _, spells_text.2 rfl, ⟨minute, [], spells_minute.2 ⟨hminute, hminutes⟩, rfl, ?_⟩, rfl⟩
  exact (List.append_nil minute).symm

/-! What is read off phrases. -/

theorem everyWithin?_eq_some_iff (hunit : unit ∈ units) {greatest n : Nat} :
    everyWithin? unit greatest t = some n ↔
      ∃ numeral, Counts unit numeral t ∧ Text.digitsToNat numeral = n ∧ 1 ≤ n ∧ n ≤ greatest := by
  rw [everyWithin?, Option.bind_eq_some_iff]
  constructor
  · rintro ⟨m, hm, h⟩
    obtain ⟨numeral, hcounts, hpart⟩ := counts_of_matchAll? hm
    rw [numberPart, hpart, Option.getD_some] at h
    dsimp only at h
    split at h
    · rename_i hbounds
      cases h
      exact ⟨numeral, hcounts, rfl, hbounds⟩
    · cases h
  · rintro ⟨numeral, hcounts, rfl, hbounds⟩
    obtain ⟨m, hm⟩ := Option.isSome_iff_exists.1 (isSome_matchAll?_of_counts hcounts)
    obtain ⟨numeral', hcounts', hpart⟩ := counts_of_matchAll? hm
    obtain rfl := hcounts.numeral_eq hunit hunit hcounts'
    refine ⟨m, hm, ?_⟩
    rw [numberPart, hpart, Option.getD_some]
    exact if_pos hbounds

theorem unreadNumber?_eq_some_iff (hunit : unit ∈ units) {f : Text.IntegerFault} :
    unreadNumber? unit t = some f ↔ ∃ numeral, Counts unit numeral t ∧
      Text.digitLimit < numeral.length ∧ f = .overlong numeral.length := by
  rw [unreadNumber?, Option.bind_eq_some_iff]
  constructor
  · rintro ⟨m, hm, h⟩
    obtain ⟨numeral, hcounts, hpart⟩ := counts_of_matchAll? hm
    rw [hpart, Option.getD_some, Text.readDigits] at h
    by_cases hlong : Text.digitLimit < numeral.length
    · rw [if_pos hlong] at h
      cases h
      exact ⟨numeral, hcounts, hlong, rfl⟩
    · rw [if_neg hlong] at h
      cases h
  · rintro ⟨numeral, hcounts, hlong, rfl⟩
    obtain ⟨m, hm⟩ := Option.isSome_iff_exists.1 (isSome_matchAll?_of_counts hcounts)
    obtain ⟨numeral', hcounts', hpart⟩ := counts_of_matchAll? hm
    obtain rfl := hcounts.numeral_eq hunit hunit hcounts'
    refine ⟨m, hm, ?_⟩
    rw [hpart, Option.getD_some, Text.readDigits, if_pos hlong]

theorem timeOfDay?_eq_some_iff {h m : Nat} : timeOfDay? t = some (h, m) ↔
    ∃ hour minute, TellsTime hour minute t ∧ Text.digitsToNat hour = h ∧ Text.digitsToNat minute = m ∧
      h ≤ 23 ∧ m ≤ 59 := by
  rw [timeOfDay?, Option.bind_eq_some_iff]
  constructor
  · rintro ⟨found, hfound, h⟩
    obtain ⟨hour, minute, htells, hhour, hminute⟩ := tellsTime_of_matchAll? hfound
    rw [numberPart, numberPart, hhour, hminute, Option.getD_some, Option.getD_some] at h
    dsimp only at h
    split at h
    · rename_i hbounds
      cases h
      exact ⟨hour, minute, htells, rfl, rfl, hbounds⟩
    · cases h
  · rintro ⟨hour, minute, htells, rfl, rfl, hbounds⟩
    obtain ⟨found, hfound⟩ := Option.isSome_iff_exists.1 (isSome_matchAll?_of_tellsTime htells)
    obtain ⟨hour', minute', htells', hhour, hminute⟩ := tellsTime_of_matchAll? hfound
    obtain ⟨rfl, rfl⟩ := htells.eq htells'
    refine ⟨found, hfound, ?_⟩
    rw [numberPart, numberPart, hhour, hminute, Option.getD_some, Option.getD_some]
    exact if_pos hbounds

end BackendMigration.EdgeFunction
