import BackendMigration.Proofs.Export.Complete
import BackendMigration.Proofs.Export.Trace

/-! What each event of an export does, and what a course of events amounts to. -/
namespace BackendMigration.Export

open BackendMigration.Relation (Log sanitize)

/-- An event leads from one state to another one. -/
inductive Act (ctx : Context) (s : State) : Event → State → Prop where
  | goes (h : s.cancellation.ask.1 = false) :
      Act ctx s (.asked false) { s with cancellation := s.cancellation.ask.2 }
  | stops (h : s.cancellation.ask.1 = true) :
      Act ctx s (.asked true) { s with
        result := { s.result with cancelled := true }
        cancellation := s.cancellation.ask.2 }
  | fetched (above : Option Visit) (path : String) (limit offset : Nat) :
      Act ctx s (.fetched above path limit offset)
        { s with requests := .fetch path limit offset :: s.requests }
  /-- A nested collection that is fetched has a relation. -/
  | opened (v : Visit) (name path : String) (limit offset : Nat) :
      Act ctx s (.fetched (some v) path limit offset) { s with
        requests := .fetch path limit offset :: s.requests
        result := s.result.ensure (nestedRelation v.relation name) (v.depth + 1) (some v.relation) }
  | unfetched (above : Option Visit) (path message : String) (limit offset : Nat) :
      Act ctx s (.fetched above path limit offset) { s with
        requests := .fetch path limit offset :: s.requests
        result := s.result.addError message (some path) ctx.period.start }
  | listed (v : Visit) : Act ctx s (.listed v) { s with requests := .list v.path :: s.requests }
  | unlisted (v : Visit) (message : String) :
      Act ctx s (.listed v) { s with
        requests := .list v.path :: s.requests
        result := s.result.addError message (some v.path) ctx.period.start }
  | offered (v : Visit) (record : Document.Entries) (key : String)
      (h : (v.relation, key) ∉ s.result.seen) :
      Act ctx s (.offered v record) (s.met v.relation key)
  | reoffered (v : Visit) (record : Document.Entries) : Act ctx s (.offered v record) s
  | emitted (relation : String) (value : Document.Value) {w : Relation.Writer} {t : File.Tree}
      (hr : sanitize relation = relation)
      (h : s.writer.write s.files relation value = (.ok w, t)) :
      Act ctx s (.emitted relation value) { s with
        result := (s.result.ensure relation 0 none).addCount relation 1
        writer := w
        files := t }
  | rejected (relation : String) (value : Document.Value) {e : Relation.WriteError} {t : File.Tree}
      (hr : sanitize relation = relation)
      (h : s.writer.write s.files relation value = (.error e, t)) :
      Act ctx s (.rejected relation value) { s with files := t }
  | repeated (v : Visit) :
      Act ctx s (.settled v .repeated) { s with
        result := { s.result with duplicatesSkipped := s.result.duplicatesSkipped + 1 } }
  | dropped (v : Visit) :
      Act ctx s (.settled v .dropped) { s with
        result := { s.result with documentsDropped := s.result.documentsDropped + 1 } }
  | refused (v : Visit) (message path : String) :
      Act ctx s (.settled v .refused) { s with
        result := s.result.addError message (some path) ctx.period.start }
  | written (v : Visit) (value : Document.Value) {w : Relation.Writer} {t : File.Tree}
      (hr : sanitize v.relation = v.relation)
      (h : s.writer.write s.files v.relation value = (.ok w, t)) :
      Act ctx s (.settled v (.written value)) { s with
        result := (s.result.ensure v.relation v.depth none).addCount v.relation 1
        writer := w
        files := t }

/-- Events lead from one state to another one, one after another. -/
inductive Acts (ctx : Context) : State → List Event → State → Prop where
  | nil (s : State) : Acts ctx s [] s
  | cons {s t u : State} {event : Event} {rest : List Event} (first : Act ctx s event t)
      (others : Acts ctx t rest u) : Acts ctx s (event :: rest) u

variable {ctx : Context} {s t u : State} {event : Event} {events events' : List Event}

theorem Acts.single (h : Act ctx s event t) : Acts ctx s [event] t :=
  .cons h (.nil t)

theorem Acts.append (h : Acts ctx s events t) (h' : Acts ctx t events' u) :
    Acts ctx s (events ++ events') u := by
  induction h with
  | nil => exact h'
  | cons first _ ih => exact .cons first (ih h')

theorem Acts.split (h : Acts ctx s (events ++ events') u) :
    ∃ t, Acts ctx s events t ∧ Acts ctx t events' u := by
  induction events generalizing s with
  | nil => exact ⟨s, .nil s, h⟩
  | cons event rest ih =>
    cases h with
    | cons first others =>
      obtain ⟨t, hrest, hothers⟩ := ih others
      exact ⟨t, .cons first hrest, hothers⟩

/-! What events amount to. -/

theorem Act.requests (h : Act ctx s event t) : t.requests = event.request?.toList ++ s.requests := by
  cases h <;> rfl

/-- The requests of an export are those of its events, the last one first. -/
theorem Acts.requests (h : Acts ctx s events t) :
    t.requests = (requested events).reverse ++ s.requests := by
  induction h with
  | nil => rfl
  | @cons _ _ _ event rest first _ ih =>
    rw [ih, first.requests, requested, requested, List.filterMap_cons]
    cases event.request? with
    | none => rfl
    | some request => simp

theorem Act.cancelled (h : Act ctx s event t) :
    t.result.cancelled = true ↔ s.result.cancelled = true ∨ event = .asked true := by
  cases h <;> simp [Result.addError, Result.addCount, Result.cancelled_ensure, State.met]

/-- An export is cancelled if it was told to stop. -/
theorem Acts.cancelled (h : Acts ctx s events t) :
    t.result.cancelled = true ↔ s.result.cancelled = true ∨ .asked true ∈ events := by
  induction h with
  | nil => simp
  | cons first _ ih => rw [ih, first.cancelled, List.mem_cons, or_assoc, @eq_comm _ (Event.asked true)]

variable {session : Session} {attempts : List (String × Document.Value)}

/-- What an attempt to write a record does is accounted for. -/
theorem Accounts.attempt (h : Accounts session attempts s) {relation : String}
    (hr : sanitize relation = relation) (depth : Int) (value : Document.Value)
    {run : Except Relation.WriteError Relation.Writer × File.Tree}
    (hrun : s.writer.write s.files relation value = run) :
    Accounts session (attempts ++ [(relation, value)])
        (match run with
        | (.ok w, t) => { s with
            result := (s.result.ensure relation depth none).addCount relation 1
            writer := w
            files := t }
        | (.error _, t) => { s with files := t }) ∧
      (Log.run session.writer session.files (attempts ++ [(relation, value)])).written =
        (Log.run session.writer session.files attempts).written ++
          (match run.1 with
          | .ok _ => [(relation, value)]
          | .error _ => []) := by
  have haccounts := h.storeRecord hr depth value
  rw [Step.run_storeRecord, hrun] at haccounts
  rw [h.writer, h.files] at hrun
  obtain ⟨e | w, t⟩ := run
  · refine ⟨haccounts, ?_⟩
    rw [Log.run_concat, Log.attempt_of_error (a := (relation, value)) hrun, List.append_nil]
  · refine ⟨haccounts, ?_⟩
    rw [Log.run_concat, Log.attempt_of_ok (a := (relation, value)) hrun]

theorem Act.accounts (h : Act ctx s event t) (hs : Accounts session attempts s) :
    ∃ attempts', Accounts session attempts' t ∧
      (Log.run session.writer session.files attempts').written =
        (Log.run session.writer session.files attempts).written ++ event.write?.toList := by
  have hsame : ∀ {u : State}, u.writer = s.writer → u.files = s.files →
      u.result.relations = s.result.relations → event.write? = none →
      ∃ attempts', Accounts session attempts' u ∧
        (Log.run session.writer session.files attempts').written =
          (Log.run session.writer session.files attempts).written ++ event.write?.toList := by
    intro u hw hf hr hnone
    exact ⟨attempts, hs.of_eq hw hf hr, by rw [hnone]; exact (List.append_nil _).symm⟩
  cases h with
  | opened v name path limit offset =>
    have hr := Steady.sanitize_nestedRelation v.relation name
    have haccounts := hs.ensure hr (v.depth + 1) (some v.relation)
    exact ⟨attempts, haccounts.of_eq rfl rfl rfl, (List.append_nil _).symm⟩
  | emitted relation value hr h => exact ⟨_, hs.attempt hr 0 value h⟩
  | rejected relation value hr h => exact ⟨_, hs.attempt hr 0 value h⟩
  | written v value hr h => exact ⟨_, hs.attempt hr v.depth value h⟩
  | _ => exact hsame rfl rfl rfl rfl

/-- The records that are written are those of its events, in order. -/
theorem Acts.accounts (h : Acts ctx s events t) (hs : Accounts session attempts s) :
    ∃ attempts', Accounts session attempts' t ∧
      (Log.run session.writer session.files attempts').written =
        (Log.run session.writer session.files attempts).written ++ writes events := by
  induction h generalizing attempts with
  | nil => exact ⟨attempts, hs, (List.append_nil _).symm⟩
  | @cons _ _ _ event rest first _ ih =>
    obtain ⟨attempts', haccounts, hfirst⟩ := first.accounts hs
    obtain ⟨attempts'', haccounts', hothers⟩ := ih haccounts
    refine ⟨attempts'', haccounts', ?_⟩
    rw [hothers, hfirst, List.append_assoc, writes, writes, List.filterMap_cons]
    cases event.write? <;> rfl

end BackendMigration.Export
