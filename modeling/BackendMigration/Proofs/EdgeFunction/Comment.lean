import BackendMigration.Proofs.EdgeFunction.Page
import BackendMigration.Proofs.Pattern.Takes

/-! The notes that end an edge function are one comment unless a text shown in them closes it. -/
namespace BackendMigration.EdgeFunction

open Pattern

/-- A text that closes the comment it stands in. -/
def endsComment (s : String) : Bool := mentions ['*', '/'] s

/-- One comment and a line feed: it opens, and it is closed right before the line feed and nowhere
before. -/
structure IsComment (t : Text) : Prop where
  opens : ['/', '*'] <+: t
  closes : Text.indexOf? ['*', '/'] t = some (t.length - 3)
  ends : t.getLast? = some '\n'

/-- A schedule that counts minutes or hours in steps. -/
def countsInSteps (schedule : Option String) : Bool :=
  let phrase := phraseOf schedule
  (cronExpression.matchAll? phrase).isNone &&
    ((everyWithin? "minute" 59 phrase).isSome || (everyWithin? "hour" 23 phrase).isSome)

/-- The texts behind those that the notes of a record show. -/
def notedSources (r : FunctionRecord) (functionUrl : String) : List String :=
  [r.sourceFile, r.url.getD ""] ++
    (if r.kind = .queueMessage then [spelledOut r.topic, functionUrl] else []) ++
    (if r.kind = .timeSchedule then
      [String.ofList (phraseOf r.schedule), r.name, functionUrl] else [])

theorem foreign_commentEnd : Foreign ['*', '/'] where
  ne_nil := List.cons_ne_nil _ _
  unbroken := by decide
  parts := by
    simp only [noteParts, List.forall_mem_cons]
    repeat rw [String.toList_ofList]
    decide
  kinds := by
    simp only [TriggerKind.all, TriggerKind.name, List.forall_mem_cons, mentions]
    repeat rw [String.toList_ofList]
    decide
  lines := by
    simp only [noteLines, List.forall_mem_cons, mentions, String.reduceAppend]
    repeat rw [String.toList_ofList]
    decide +kernel

theorem isComment_iff (inner : Text) :
    IsComment (['/', '*'] ++ inner ++ ['*', '/', '\n']) ↔
      Text.occursIn ['*', '/'] (['/', '*'] ++ inner) = false := by
  have hfirst : Text.indexOf? ['*', '/'] (['/', '*'] ++ inner ++ ['*', '/', '\n']) =
      some (['/', '*'] ++ inner).length ↔
        Text.occursIn ['*', '/'] (['/', '*'] ++ inner ++ ['*']) = false :=
    Text.indexOf?_append_iff (List.cons_ne_nil _ _) _ ['\n']
  have hstar : Text.occursIn ['*', '/'] (['/', '*'] ++ inner ++ ['*']) =
      Text.occursIn ['*', '/'] (['/', '*'] ++ inner) :=
    Text.occursIn_append_fixed ⟨rfl, by simp⟩ _
  have hlength : (['/', '*'] ++ inner ++ ['*', '/', '\n']).length - 3 =
      (['/', '*'] ++ inner).length := by
    simp
  constructor
  · intro h
    have hcloses := h.closes
    rw [hlength] at hcloses
    rw [← hstar]
    exact hfirst.1 hcloses
  · intro h
    rw [← hstar] at h
    constructor
    · exact List.prefix_append ['/', '*'] _
    · rw [hlength]
      exact hfirst.2 h
    · have hconcat : ['/', '*'] ++ inner ++ ['*', '/', '\n'] =
          ['/', '*'] ++ inner ++ ['*', '/'] ++ ['\n'] := by
        simp
      rw [hconcat, List.getLast?_concat]

/-- A numeral of one or two digits closes no comment. -/
theorem endsComment_time {minute hour : Nat} (hm : minute ≤ 59) (hh : hour ≤ 23) :
    endsComment (toString minute ++ " " ++ toString hour ++ " * * *") = false := by
  have hminute : ∀ n < 60, endsComment (toString n) = false := by decide
  have hhour : ∀ n < 24, endsComment (toString n) = false := by decide
  rw [endsComment, mentions_append_fixed (by decide),
    mentions_append_fixed_append (by decide) (by decide) (by decide), ← endsComment, ← endsComment,
    hminute minute (by omega), hhour hour (by omega)]
  rfl

theorem endsComment_of_steps (front rest : String) :
    endsComment (front ++ "*/" ++ rest) = true := by
  rw [endsComment, mentions, Text.occursIn_iff, String.toList_append, String.toList_append]
  exact List.infix_append front.toList ['*', '/'] rest.toList

theorem bounds_of_timeOfDay? {phrase : Text} {hour minute : Nat}
    (h : timeOfDay? phrase = some (hour, minute)) : hour ≤ 23 ∧ minute ≤ 59 := by
  obtain ⟨m, -, hm⟩ := Option.bind_eq_some_iff.1 h
  dsimp only at hm
  split at hm
  · rename_i hbounds
    cases hm
    exact hbounds
  · cases hm

/-- A phrase of a time of day has no star. -/
theorem endsComment_of_timeOfDay? {phrase : Text} {time : Nat × Nat}
    (h : timeOfDay? phrase = some time) : endsComment (String.ofList phrase) = false := by
  obtain ⟨m, hm, -⟩ := Option.bind_eq_some_iff.1 h
  have hstar : everyDayAt.allows '*' = false := by decide
  rw [endsComment, mentions, String.toList_ofList, ← Bool.not_eq_true, Text.occursIn_iff]
  intro hi
  have := allows_of_mem_matchAll? hm '*' (hi.subset (by simp))
  simp [hstar] at this

/-- What a schedule shows of itself closes the comment if its phrase does, or if it counts in
steps. -/
theorem endsComment_cronOf (schedule : Option String) :
    ((cronOf schedule).note.toList.any endsComment || endsComment (cronOf schedule).expression) =
      (endsComment (String.ofList (phraseOf schedule)) || countsInSteps schedule) := by
  unfold cronOf countsInSteps
  generalize phraseOf schedule = phrase
  dsimp only
  split
  · rename_i hempty
    obtain rfl := List.isEmpty_iff.1 hempty
    decide
  · split
    · rename_i hcron
      simp [Option.isNone_iff_eq_none, Option.isSome_iff_ne_none.1 hcron]
    · rename_i hcron
      have hnone : (cronExpression.matchAll? phrase).isNone = true := by simpa using hcron
      rw [hnone, Bool.true_and]
      split
      · rename_i n hn
        have hstep : endsComment ("*/" ++ toString n ++ " * * * *") = true := by
          rw [String.append_assoc]
          exact endsComment_of_steps "" _
        rw [hstep, hn, Option.isSome_some, Bool.true_or, Bool.or_true, Bool.or_true]
      · rename_i hminute
        have hminute := Option.eq_none_iff_forall_ne_some.2 hminute
        split
        · rename_i n hn
          have hstep : endsComment ("0 */" ++ toString n ++ " * * *") = true := by
            rw [String.append_assoc]
            exact endsComment_of_steps "0 " _
          rw [hstep, hn, Option.isSome_some, Bool.or_true, Bool.or_true, Bool.or_true]
        · rename_i hhour
          have hhour := Option.eq_none_iff_forall_ne_some.2 hhour
          rw [hminute, hhour, Option.isSome_none, Bool.or_false, Bool.or_false]
          split
          · rename_i hour minute htime
            obtain ⟨hh, hm⟩ := bounds_of_timeOfDay? htime
            rw [endsComment_time hm hh, endsComment_of_timeOfDay? htime]
            rfl
          · have hdefault : endsComment defaultCron = false := by decide
            rw [Option.toList_some, List.any_cons, List.any_nil, Bool.or_false, hdefault,
              Bool.or_false, endsComment, mentions_append_fixed (by decide),
              mentions_append_fixed (by decide), mentions_append_fixed (by decide),
              mentions_fixed_append (by decide), endsComment]

/-- The notes show what closes the comment if a text behind them does, or if the schedule counts in
steps. -/
theorem any_endsComment_notedTexts (r : FunctionRecord) (functionUrl : String) :
    (notedTexts r functionUrl).any endsComment =
      ((notedSources r functionUrl).any endsComment ||
        (r.kind == .timeSchedule && countsInSteps r.schedule)) := by
  unfold notedTexts notedSources
  by_cases hk : r.kind = .timeSchedule
  · have hcron := endsComment_cronOf r.schedule
    rw [if_pos hk, if_pos hk, hk, beq_self_eq_true, Bool.true_and]
    simp only [List.any_append, List.any_cons, List.any_nil, Bool.or_false]
    calc
      _ = (endsComment r.sourceFile || endsComment (r.url.getD "") ||
          ((if TriggerKind.timeSchedule = .queueMessage then [spelledOut r.topic, functionUrl]
            else []).any endsComment ||
          ((cronOf r.schedule).note.toList.any endsComment ||
            endsComment (cronOf r.schedule).expression) ||
          (endsComment r.name || endsComment functionUrl))) := by
        simp only [Bool.or_assoc, Bool.or_left_comm]
      _ = _ := by
        rw [hcron]
        simp only [Bool.or_assoc, Bool.or_comm, Bool.or_left_comm]
  · have hother : (r.kind == .timeSchedule) = false := beq_eq_false_iff_ne.2 hk
    rw [if_neg hk, if_neg hk, hother, Bool.false_and, Bool.or_false]

/-- The lines stand between the two marks of a comment. -/
theorem isComment_notesComment_iff (kind sourceFile : String) (notes : List String)
    (needsReview : Bool) :
    IsComment (notesComment kind sourceFile notes needsReview).toList ↔
      (innerLines kind sourceFile notes needsReview).any endsComment = false := by
  let lines := innerLines kind sourceFile notes needsReview
  let inner := " Migration Notes:\n".toList ++ (linesText lines).toList ++ [' ']
  have hlines : notesComment kind sourceFile notes needsReview =
      linesText ("/* Migration Notes:" :: lines ++ [" */"]) := by
    simp only [notesComment, lines, innerLines, List.cons_append, List.nil_append, List.append_assoc]
  have htext : (notesComment kind sourceFile notes needsReview).toList =
      ['/', '*'] ++ inner ++ ['*', '/', '\n'] := by
    rw [hlines]
    simp [toList_linesText, inner]
  have hopened : ['/', '*'] ++ inner = (linesText ("/* Migration Notes:" :: lines) ++ " ").toList := by
    simp [toList_linesText, inner]
  have hclosed : endsComment (linesText ("/* Migration Notes:" :: lines) ++ " ") =
      lines.any endsComment := by
    have hfirst : mentions ['*', '/'] "/* Migration Notes:" = false := by decide
    rw [endsComment, mentions_append_fixed (by decide),
      mentions_linesText (List.cons_ne_nil _ _) (by decide), List.any_cons, hfirst, Bool.false_or]
    rfl
  rw [htext, isComment_iff, hopened, ← hclosed, endsComment, mentions]

/-- The notes are one comment exactly if nothing that they show closes it. -/
theorem isComment_notes_iff (r : FunctionRecord) (functionUrl : String) (needsReview : Bool) :
    IsComment (notesComment r.kind.name r.sourceFile (notes r functionUrl) needsReview).toList ↔
      (∀ s ∈ notedSources r functionUrl, endsComment s = false) ∧
        (r.kind = .timeSchedule → countsInSteps r.schedule = false) := by
  have hinner : (innerLines r.kind.name r.sourceFile (notes r functionUrl) needsReview).any
      endsComment = (notedTexts r functionUrl).any endsComment :=
    foreign_commentEnd.any_mentions_innerLines r functionUrl needsReview
  rw [isComment_notesComment_iff, hinner, any_endsComment_notedTexts, Bool.or_eq_false_iff,
    List.any_eq_false, Bool.and_eq_false_imp, beq_iff_eq]
  simp only [Bool.not_eq_true]

theorem code_ends_in_notes (g : Generator) (r : FunctionRecord) :
    ∃ front, (g.unit r).code = front ++ notesComment r.kind.name r.sourceFile
      (notes r (g.functionUrl r.name)) (g.unit r).needsReview :=
  ⟨_, page_eq_append r _ _⟩

/-- Whatever is generated ends with its notes, and those are one comment exactly if none of the
texts they show closes it and the schedule does not count in steps. -/
theorem notes_end_in_comment_iff {g : Generator} {r : FunctionRecord} {u : GeneratedUnit}
    (h : g.generate r = .ok (some u)) :
    let functionUrl := g.functionUrl r.name
    let comment := notesComment r.kind.name r.sourceFile (notes r functionUrl) u.needsReview
    (∃ front, u.code = front ++ comment) ∧
      (IsComment comment.toList ↔
        (∀ s ∈ notedSources r functionUrl, endsComment s = false) ∧
          (r.kind = .timeSchedule → countsInSteps r.schedule = false)) := by
  intro functionUrl comment
  obtain rfl := Generator.eq_unit_of_generate h
  constructor
  · exact code_ends_in_notes g r
  · exact isComment_notes_iff r functionUrl _

/-- A function that the clock runs. -/
def cleanup (schedule : String) : FunctionRecord where
  name := "cleanup"
  kind := .timeSchedule
  body := "await sweep();"
  schedule := some schedule

theorem generate_cleanup {schedule : String} (h : scheduleFault? (some schedule) = none) :
    Generator.standard.generate (cleanup schedule) =
      .ok (some (Generator.standard.unit (cleanup schedule))) :=
  Generator.generate_eq_unit (by simp [cleanup, Generator.standard, TriggerKind.all]) h

/-- The notes of a function that runs once a day. -/
theorem cleanup_daily_ends_in_comment :
    let r := cleanup "every day 02:30"
    let u := Generator.standard.unit r
    let comment := notesComment r.kind.name r.sourceFile
      (notes r (Generator.standard.functionUrl r.name)) u.needsReview
    Generator.standard.generate r = .ok (some u) ∧ (∃ front, u.code = front ++ comment) ∧
      IsComment comment.toList := by
  intro r u comment
  have hu : Generator.standard.generate r = .ok (some u) := generate_cleanup (by decide)
  have hshown : (∀ s ∈ notedSources r (Generator.standard.functionUrl r.name),
      endsComment s = false) ∧ (r.kind = .timeSchedule → countsInSteps r.schedule = false) := by
    decide
  obtain ⟨hends, hiff⟩ := notes_end_in_comment_iff hu
  exact ⟨hu, hends, hiff.2 hshown⟩

/-- Every five minutes is a step, and its notes are not one comment. -/
theorem cleanup_steps_close_comment :
    let r := cleanup "every 5 minutes"
    let u := Generator.standard.unit r
    let comment := notesComment r.kind.name r.sourceFile
      (notes r (Generator.standard.functionUrl r.name)) u.needsReview
    Generator.standard.generate r = .ok (some u) ∧ (∃ front, u.code = front ++ comment) ∧
      ¬ IsComment comment.toList := by
  intro r u comment
  have hu : Generator.standard.generate r = .ok (some u) := generate_cleanup (by decide)
  have hsteps : countsInSteps r.schedule = true := by decide
  have hk : r.kind = .timeSchedule := rfl
  have hclosed : ¬ IsComment comment.toList := by
    rw [isComment_notes_iff]
    intro h
    have := h.2 hk
    simp [hsteps] at this
  exact ⟨hu, code_ends_in_notes .standard r, hclosed⟩

end BackendMigration.EdgeFunction
