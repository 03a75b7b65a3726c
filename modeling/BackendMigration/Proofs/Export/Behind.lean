import BackendMigration.Proofs.Export.Telling

/-! The same steps in two states. -/
namespace BackendMigration.Export

open BackendMigration.Relation (WriteError sanitize)
open Traced (attempt)

variable {α β γ δ : Type}

/-- Two steps end alike: both with results that go together, or both with errors that do. -/
inductive Ends (E : WriteError → WriteError → Prop) (V : α → β → Prop) :
    Except WriteError α → Except WriteError β → Prop where
  | ok {a : α} {b : β} (h : V a b) : Ends E V (.ok a) (.ok b)
  | error {e e' : WriteError} (h : E e e') : Ends E V (.error e) (.error e')

/-- In states that go together two steps end alike, in states that go together again. -/
def Step.Alike (R : State → State → Prop) (E : WriteError → WriteError → Prop) (V : α → β → Prop)
    (m : Step α) (m' : Step β) : Prop :=
  ∀ s s', R s s' → Ends E V (m.run.run s).1 (m'.run.run s').1 ∧ R (m.run.run s).2 (m'.run.run s').2

namespace Step.Alike

variable {R : State → State → Prop} {E : WriteError → WriteError → Prop} {V : α → β → Prop}
  {W : γ → δ → Prop} {m : Step α} {m' : Step β}

theorem pure {a : α} {b : β} (h : V a b) : Alike R E V (pure a) (pure b) :=
  fun _ _ hs => ⟨.ok h, hs⟩

theorem bind {f : α → Step γ} {f' : β → Step δ} (hm : Alike R E V m m')
    (hf : ∀ a b, V a b → Alike R E W (f a) (f' b)) : Alike R E W (m >>= f) (m' >>= f') := by
  intro s s' hs
  obtain ⟨hends, ht⟩ := hm s s' hs
  rw [run_bind, run_bind]
  generalize m.run.run s = run at hends ht ⊢
  generalize m'.run.run s' = run' at hends ht ⊢
  obtain ⟨r, t⟩ := run
  obtain ⟨r', t'⟩ := run'
  cases hends with
  | ok h => exact hf _ _ h t t' ht
  | error h => exact ⟨.error h, ht⟩

theorem attempt {m m' : Step Unit} (h : Alike R E Eq m m') :
    Alike R E (Ends E Eq) (attempt m) (attempt m') := by
  intro s s' hs
  rw [Traced.run_attempt, Traced.run_attempt]
  exact ⟨.ok (h s s' hs).1, (h s s' hs).2⟩

end Step.Alike

/-! Writing a record in two states. -/

/-- Two outcomes of a hook are the same but for the error that it fails with. -/
inductive Outcomes (E : WriteError → WriteError → Prop) : HookOutcome → HookOutcome → Prop where
  | same (outcome : HookOutcome) : Outcomes E outcome outcome
  | fail {e e' : WriteError} (h : E e e') : Outcomes E (.fail e.message) (.fail e'.message)

/-- What writing a record needs of states that go together. -/
structure WritesAlike (ctx : Context) (R : State → State → Prop) (E : WriteError → WriteError → Prop) :
    Prop where
  repeated : Step.Alike R E Eq
    (updateResult fun r => { r with duplicatesSkipped := r.duplicatesSkipped + 1 })
    (updateResult fun r => { r with duplicatesSkipped := r.duplicatesSkipped + 1 })
  dropped : Step.Alike R E Eq (updateResult fun r => { r with documentsDropped := r.documentsDropped + 1 })
    (updateResult fun r => { r with documentsDropped := r.documentsDropped + 1 })
  noted : ∀ message key, Step.Alike R E Eq (noteError ctx message key) (noteError ctx message key)
  refused : ∀ e e' key, E e e' → Step.Alike R E Eq (noteError ctx ("Hook failed: " ++ e.message) key)
    (noteError ctx ("Hook failed: " ++ e'.message) key)
  stored : ∀ relation depth value, sanitize relation = relation →
    Step.Alike R E Eq (storeRecord relation depth value) (storeRecord relation depth value)

namespace WritesAlike

variable {ctx : Context} {R : State → State → Prop} {E : WriteError → WriteError → Prop}
  {relation key : String}

theorem emitAll (h : WritesAlike ctx R E) (emissions : List (String × Document.Value)) :
    Step.Alike R E (Ends E Eq) (emitAll emissions) (emitAll emissions) := by
  induction emissions with
  | nil => exact .pure (.ok rfl)
  | cons a rest ih =>
    unfold Export.emitAll
    have hemit : Step.Alike R E Eq (emit a.1 a.2) (emit a.1 a.2) :=
      h.stored _ 0 a.2 (Relation.sanitize_sanitize a.1)
    refine hemit.attempt.bind fun outcome outcome' hends => ?_
    cases hends with
    | ok => exact ih
    | error he => exact .pure (.error he)

theorem applyHook (h : WritesAlike ctx R E) (relation : String) (record : Document.Entries) :
    Step.Alike R E (Outcomes E) (applyHook ctx relation record) (applyHook ctx relation record) := by
  unfold Export.applyHook
  cases Keyed.get? relation ctx.hooks with
  | none => exact .pure (.same _)
  | some hook =>
    refine (h.emitAll _).bind fun outcome outcome' hends => ?_
    cases hends with
    | ok => exact .pure (.same _)
    | error he => exact .pure (.fail he)

/-- A record is written alike in both states, if its document was met before in both or in neither. -/
theorem writeRecord (h : WritesAlike ctx R E) (hr : sanitize relation = relation)
    (hmeet : Step.Alike R E Eq (meet relation key) (meet relation key)) (record : Document.Entries)
    (depth : Nat) : Step.Alike R E Eq (writeRecord ctx relation record key depth)
      (writeRecord ctx relation record key depth) := by
  rw [Step.writeRecord_eq]
  refine hmeet.bind fun isNew _ heq => ?_
  subst heq
  cases isNew with
  | false => exact h.repeated.bind fun _ _ _ => .pure rfl
  | true =>
    refine (h.applyHook relation record).bind fun outcome outcome' houtcomes => ?_
    cases houtcomes with
    | same =>
      cases outcome with
      | fail message => exact (h.noted _ key).bind fun _ _ _ => .pure rfl
      | drop => exact h.dropped.bind fun _ _ _ => .pure rfl
      | keep value => exact (h.stored relation depth value hr).bind fun _ _ _ => .pure rfl
    | fail he => exact (h.refused _ _ key he).bind fun _ _ _ => .pure rfl

end WritesAlike
end BackendMigration.Export

/-! Two exports of which one is cancelled: at first they go on in step, and then one stays behind. -/
namespace BackendMigration.Export

open BackendMigration.Relation (Log sanitize)
open Traced (Tells)

variable {session : Session} {ctx : Context} {α : Type} {m : Step α} {s s' t t' : State}

/-! In step. -/

/-- Two states are the same but for the cancellation, which never comes in the first one. -/
structure Synced (session : Session) (s s' : State) : Prop where
  same : s' = { s with cancellation := s'.cancellation }
  going : s.cancellation = .never
  accounted : Accounted session s

theorem Ends.refl (r : Except Relation.WriteError α) : Ends Eq Eq r r := by
  cases r with
  | error e => exact .error rfl
  | ok a => exact .ok rfl

/-- A step that does not ask whether to stop keeps states in step. -/
theorem Synced.alike (hm : ∀ s c, m.run.run { s with cancellation := c } =
      ((m.run.run s).1, { (m.run.run s).2 with cancellation := c }))
    (hk : Step.Keeps (Accounted session) m) : Step.Alike (Synced session) Eq Eq m m := by
  intro s s' h
  have hrun := hm s s'.cancellation
  rw [← h.same] at hrun
  rw [hrun]
  refine ⟨.refl _, rfl, ?_, hk s h.accounted⟩
  have hsame := congrArg (fun run => run.2.cancellation) (hm s s.cancellation)
  exact hsame.trans h.going

theorem keeps_of_tells {T : Traced α} {P : Except Relation.WriteError α → List Event → Prop}
    (h : Tells ctx T m P) : Step.Keeps (Accounted session) m := by
  rintro s ⟨attempts, hs⟩
  obtain ⟨new, -, hacts, -⟩ := h s []
  obtain ⟨attempts', ht, -⟩ := hacts.accounts hs
  exact ⟨attempts', ht⟩

theorem writesAlike_synced (ctx : Context) (session : Session) : WritesAlike ctx (Synced session) Eq where
  repeated := Synced.alike (fun _ _ => rfl) (keeps_updateResult fun _ => rfl)
  dropped := Synced.alike (fun _ _ => rfl) (keeps_updateResult fun _ => rfl)
  noted _ _ := Synced.alike (fun _ _ => rfl) (keeps_updateResult fun _ => rfl)
  refused := by
    rintro e _ key rfl
    exact Synced.alike (fun _ _ => rfl) (keeps_updateResult fun _ => rfl)
  stored relation depth value hr := by
    refine Synced.alike (fun s c => ?_) (keeps_storeRecord hr depth value)
    rw [Step.run_storeRecord, Step.run_storeRecord]
    dsimp only
    rcases s.writer.write s.files relation value with ⟨_ | _, t⟩ <;> rfl

theorem synced_meet (relation key : String) :
    Step.Alike (Synced session) Eq Eq (meet relation key) (meet relation key) := by
  refine Synced.alike (fun s c => ?_) ?_
  · rw [Step.run_meet, Step.run_meet]
    dsimp only
    split <;> rfl
  · rintro s ⟨attempts, hs⟩
    rw [Step.run_meet]
    split
    · exact ⟨attempts, hs⟩
    · exact ⟨attempts, hs.of_eq rfl rfl rfl⟩

theorem synced_writeRecord {relation : String} (hr : sanitize relation = relation)
    (record : Document.Entries) (key : String) (depth : Nat) :
    Step.Alike (Synced session) Eq Eq (writeRecord ctx relation record key depth)
      (writeRecord ctx relation record key depth) :=
  (writesAlike_synced ctx session).writeRecord hr (synced_meet relation key) record depth

/-! Behind. -/

/-- The first state covers the second one: it has all its relations, and what was written in the second one
was written in the first one too, in the same order. -/
structure Covers (session : Session) (s s' : State) : Prop where
  accounts : ∃ attempts attempts', Accounts session attempts s ∧ Accounts session attempts' s' ∧
    (Log.run session.writer session.files attempts').written.Sublist
      (Log.run session.writer session.files attempts).written
  relations : ∀ r ∈ Keyed.keys s'.result.relations, r ∈ Keyed.keys s.result.relations

/-- The second state has stopped and is covered by the first one, and of the relations whose names are
shorter than `n` both have met the same documents. -/
structure Behind (session : Session) (n : Nat) (s s' : State) : Prop extends Covers session s s' where
  stopped : s'.cancellation = ⟨some 0⟩
  seen : ∀ relation key, relation.length < n →
    ((relation, key) ∈ s'.result.seen ↔ (relation, key) ∈ s.result.seen)

theorem Synced.covers (h : Synced session s s') (hw : t.writer = s'.writer) (hf : t.files = s'.files)
    (hr : t.result.relations = s'.result.relations) : Covers session s t := by
  obtain ⟨attempts, haccounts⟩ := h.accounted
  have hwriter := congrArg State.writer h.same
  have hfiles := congrArg State.files h.same
  have hresult := congrArg State.result h.same
  refine ⟨⟨attempts, attempts, haccounts, ?_, .refl _⟩, ?_⟩
  · exact haccounts.of_eq (hw.trans hwriter) (hf.trans hfiles) (by rw [hr, hresult])
  · rw [hr, hresult]
    exact fun _ hmem => hmem

theorem Synced.behind (h : Synced session s s') (n : Nat) (hw : t.writer = s'.writer)
    (hf : t.files = s'.files) (hr : t.result.relations = s'.result.relations)
    (hs : t.result.seen = s'.result.seen) (hc : t.cancellation = ⟨some 0⟩) : Behind session n s t := by
  have hresult := congrArg State.result h.same
  refine ⟨h.covers hw hf hr, hc, ?_⟩
  rw [hs, hresult]
  exact fun _ _ _ => Iff.rfl

namespace Behind

variable {n : Nat}

theorem mono (h : Behind session n s s') {k : Nat} (hk : k ≤ n) : Behind session k s s' :=
  ⟨h.toCovers, h.stopped, fun relation key hlt => h.seen relation key (by omega)⟩

/-- What writes nothing and meets nothing makes no difference. -/
theorem of_eq (h : Behind session n s s') (hw : t.writer = s.writer) (hf : t.files = s.files)
    (hr : t.result.relations = s.result.relations) (hs : t.result.seen = s.result.seen)
    (hw' : t'.writer = s'.writer) (hf' : t'.files = s'.files)
    (hr' : t'.result.relations = s'.result.relations) (hs' : t'.result.seen = s'.result.seen)
    (hc' : t'.cancellation = s'.cancellation) : Behind session n t t' := by
  obtain ⟨attempts, attempts', haccounts, haccounts', hsub⟩ := h.accounts
  refine ⟨⟨⟨attempts, attempts', haccounts.of_eq hw hf hr, haccounts'.of_eq hw' hf' hr', hsub⟩, ?_⟩,
    hc'.trans h.stopped, ?_⟩
  · rw [hr, hr']
    exact h.relations
  · rw [hs, hs']
    exact h.seen

theorem alike_updateResult {E : Relation.WriteError → Relation.WriteError → Prop} {f f' : Result → Result}
    (hr : ∀ r, (f r).relations = r.relations) (hs : ∀ r, (f r).seen = r.seen)
    (hr' : ∀ r, (f' r).relations = r.relations) (hs' : ∀ r, (f' r).seen = r.seen) :
    Step.Alike (Behind session n) E Eq (updateResult f) (updateResult f') :=
  fun _ _ h => ⟨.ok rfl, h.of_eq rfl rfl (hr _) (hs _) rfl rfl (hr' _) (hs' _) rfl⟩

/-- Both states write a record, or neither does. -/
theorem isOk_write (h : Behind session n s s') {relation : String}
    (hr : sanitize relation = relation) (value : Document.Value) :
    (s.writer.write s.files relation value).1.isOk = (s'.writer.write s'.files relation value).1.isOk := by
  obtain ⟨attempts, attempts', haccounts, haccounts', -⟩ := h.accounts
  rw [haccounts.writer, haccounts.files, haccounts'.writer, haccounts'.files]
  exact Bool.eq_iff_iff.2 ((Log.isOk_write_iff haccounts.attempted hr value).trans
    (Log.isOk_write_iff haccounts'.attempted hr value).symm)

theorem alike_storeRecord {relation : String} (hr : sanitize relation = relation) (depth : Int)
    (value : Document.Value) :
    Step.Alike (Behind session n) (fun _ _ => True) Eq (storeRecord relation depth value)
      (storeRecord relation depth value) := by
  intro s s' h
  have hisOk := h.isOk_write hr value
  obtain ⟨attempts, attempts', haccounts, haccounts', hsub⟩ := h.accounts
  rw [Step.run_storeRecord, Step.run_storeRecord]
  rcases hwrite : s.writer.write s.files relation value with ⟨e | w, t⟩ <;>
    rcases hwrite' : s'.writer.write s'.files relation value with ⟨e' | w', t'⟩ <;>
    rw [hwrite, hwrite'] at hisOk
  · obtain ⟨hs, hwritten⟩ := haccounts.attempt hr depth value hwrite
    obtain ⟨hs', hwritten'⟩ := haccounts'.attempt hr depth value hwrite'
    refine ⟨.error trivial, ⟨⟨_, _, hs, hs', ?_⟩, h.relations⟩, h.stopped, h.seen⟩
    rw [hwritten, hwritten']
    exact hsub.append (.refl _)
  · cases hisOk
  · cases hisOk
  · obtain ⟨hs, hwritten⟩ := haccounts.attempt hr depth value hwrite
    obtain ⟨hs', hwritten'⟩ := haccounts'.attempt hr depth value hwrite'
    refine ⟨.ok rfl, ⟨⟨_, _, hs, hs', ?_⟩, fun r hmem => ?_⟩, h.stopped, fun relation' key hlt => ?_⟩
    · rw [hwritten, hwritten']
      exact hsub.append (.refl _)
    · rw [Result.keys_addCount, Result.mem_keys_ensure] at hmem ⊢
      exact hmem.imp_left (h.relations r)
    · change _ ∈ (s'.result.ensure relation depth none).seen ↔
        _ ∈ (s.result.ensure relation depth none).seen
      rw [Result.seen_ensure, Result.seen_ensure]
      exact h.seen relation' key hlt

theorem alike_meet {E : Relation.WriteError → Relation.WriteError → Prop} {relation : String}
    (hn : relation.length < n) (key : String) :
    Step.Alike (Behind session n) E Eq (meet relation key) (meet relation key) := by
  intro s s' h
  have hseen := h.seen relation key hn
  rw [Step.run_meet, Step.run_meet]
  by_cases hmem : (relation, key) ∈ s.result.seen
  · rw [if_pos hmem, if_pos (hseen.2 hmem)]
    exact ⟨.ok rfl, h⟩
  · rw [if_neg hmem, if_neg fun h => hmem (hseen.1 h)]
    obtain ⟨attempts, attempts', haccounts, haccounts', hsub⟩ := h.accounts
    refine ⟨.ok rfl, ⟨⟨attempts, attempts', haccounts.of_eq rfl rfl rfl,
      haccounts'.of_eq rfl rfl rfl, hsub⟩, h.relations⟩, h.stopped, fun relation' key' hlt => ?_⟩
    change _ ∈ (relation, key) :: s'.result.seen ↔ _ ∈ (relation, key) :: s.result.seen
    rw [List.mem_cons, List.mem_cons, h.seen relation' key' hlt]

theorem writesAlike (ctx : Context) (session : Session) (n : Nat) :
    WritesAlike ctx (Behind session n) fun _ _ => True where
  repeated := alike_updateResult (fun _ => rfl) (fun _ => rfl) (fun _ => rfl) fun _ => rfl
  dropped := alike_updateResult (fun _ => rfl) (fun _ => rfl) (fun _ => rfl) fun _ => rfl
  noted _ _ := alike_updateResult (fun _ => rfl) (fun _ => rfl) (fun _ => rfl) fun _ => rfl
  refused _ _ _ _ := alike_updateResult (fun _ => rfl) (fun _ => rfl) (fun _ => rfl) fun _ => rfl
  stored _ depth value hr := alike_storeRecord hr depth value

theorem alike_writeRecord {relation : String} (hr : sanitize relation = relation)
    (record : Document.Entries) (key : String) (depth : Nat) :
    Step.Alike (Behind session (relation.length + 1)) (fun _ _ => True) Eq
      (writeRecord ctx relation record key depth) (writeRecord ctx relation record key depth) :=
  (writesAlike ctx session _).writeRecord hr (alike_meet (Nat.lt_succ_self _) key) record depth

end Behind

/-! What events do while one state is behind. -/

variable {event : Event} {events : List Event} {n : Nat}

theorem Act.relations (h : Act ctx s event t) {r : String}
    (hr : r ∈ Keyed.keys s.result.relations) : r ∈ Keyed.keys t.result.relations := by
  cases h with
  | opened => exact Result.mem_keys_ensure.2 (.inl hr)
  | emitted | written =>
    rw [Result.keys_addCount]
    exact Result.mem_keys_ensure.2 (.inl hr)
  | _ => exact hr

/-- Documents of a relation are met where their records are passed on. -/
theorem Act.seen (h : Act ctx s event t) {relation key : String}
    (hother : ∀ v record, event = .offered v record → v.relation ≠ relation) :
    (relation, key) ∈ t.result.seen ↔ (relation, key) ∈ s.result.seen := by
  cases h with
  | offered v record key' =>
    have hne : relation ≠ v.relation := fun heq => hother v record rfl heq.symm
    change _ ∈ (v.relation, key') :: s.result.seen ↔ _
    simp [hne]
  | opened | emitted | written =>
    change _ ∈ (Result.ensure ..).seen ↔ _
    rw [Result.seen_ensure]
  | _ => exact Iff.rfl

/-- Once told to stop, an export is told so again. -/
theorem Act.stopped (h : Act ctx s event t) (hs : s.cancellation = ⟨some 0⟩) :
    event ≠ .asked false ∧ t.cancellation = ⟨some 0⟩ := by
  cases h with
  | goes h =>
    rw [hs] at h
    cases h
  | stops h => exact ⟨by simp, (Cancellation.ask_again h).trans hs⟩
  | _ => exact ⟨by simp, hs⟩

theorem Acts.stopped (h : Acts ctx s events t) (hs : s.cancellation = ⟨some 0⟩) :
    .asked false ∉ events ∧ t.cancellation = ⟨some 0⟩ := by
  induction h with
  | nil => exact ⟨List.not_mem_nil, hs⟩
  | cons first _ ih =>
    obtain ⟨hne, ht⟩ := first.stopped hs
    obtain ⟨hnot, hu⟩ := ih ht
    exact ⟨fun hmem => (List.mem_cons.1 hmem).elim (fun heq => hne heq.symm) hnot, hu⟩

namespace Behind

/-- The first state goes further ahead with documents of relations that have longer names. -/
theorem ahead (h : Behind session n s s') (hacts : Acts ctx s events t)
    (hlong : ∀ event ∈ events, ∀ v record, event = .offered v record → n ≤ v.relation.length) :
    Behind session n t s' := by
  induction hacts with
  | nil => exact h
  | @cons s t u event rest first _ ih =>
    refine ih ?_ fun e he => hlong e (List.mem_cons_of_mem event he)
    obtain ⟨attempts, attempts', haccounts, haccounts', hsub⟩ := h.accounts
    obtain ⟨attempts'', ht, hwritten⟩ := first.accounts haccounts
    refine ⟨⟨⟨attempts'', attempts', ht, haccounts', ?_⟩, fun r hr => first.relations (h.relations r hr)⟩,
      h.stopped, fun relation key hlt => ?_⟩
    · rw [hwritten]
      exact hsub.trans (List.sublist_append_left ..)
    · -- What is met now is of a relation with a longer name than this one.
      rw [first.seen fun v record heq hrelation => ?_, h.seen relation key hlt]
      have := hlong event List.mem_cons_self v record heq
      rw [hrelation] at this
      omega

/-- Where the second state does nothing it stays behind. -/
theorem stay (h : Behind session n s s') (hacts : Acts ctx s' events t')
    (hidle : ∀ event ∈ events, event.isIdle = true) : Behind session n s t' := by
  induction hacts with
  | nil => exact h
  | cons first _ ih =>
    refine ih ?_ fun e he => hidle e (List.mem_cons_of_mem _ he)
    have hevent := hidle _ List.mem_cons_self
    cases first with
    | stops hask =>
      exact h.of_eq rfl rfl rfl rfl rfl rfl rfl rfl (Cancellation.ask_again hask)
    | listed | unlisted => exact h.of_eq rfl rfl rfl rfl rfl rfl rfl rfl rfl
    | _ => cases hevent

end Behind
end BackendMigration.Export
