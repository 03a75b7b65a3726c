import BackendMigration.Proofs.Export.Step

/-! Two exports that go on side by side, of which one has requests that fail. -/
namespace BackendMigration.Export

/-- A list is made of two others, each in its own order. -/
structure Joined {α : Type} (a b c : List α) : Prop where
  perm : c.Perm (a ++ b)
  left : a.Sublist c
  right : b.Sublist c

namespace Joined

variable {α : Type} {a b c : List α}

theorem nil : Joined ([] : List α) [] [] := ⟨.refl _, .slnil, .slnil⟩

theorem concat_left (h : Joined a b c) (x : α) : Joined (a ++ [x]) b (c ++ [x]) := by
  refine ⟨?_, h.left.append_right [x], h.right.trans (List.sublist_append_left c [x])⟩
  calc c ++ [x] |>.Perm (a ++ b ++ [x]) := h.perm.append_right [x]
    _ |>.Perm (a ++ [x] ++ b) := by
      rw [List.append_assoc, List.append_assoc]
      exact List.perm_append_comm.append_left a

theorem concat_right (h : Joined a b c) (x : α) : Joined a (b ++ [x]) (c ++ [x]) := by
  refine ⟨?_, h.left.trans (List.sublist_append_left c [x]), h.right.append_right [x]⟩
  rw [← List.append_assoc]
  exact h.perm.append_right [x]

end Joined

/-! Steps side by side. -/

/-- Two steps end alike, in states that are related if those before them are. -/
def Step.Mirrors {α : Type} (R : State → State → Prop) (m m' : Step α) : Prop :=
  ∀ s s', R s s' → (m.run.run s).1 = (m'.run.run s').1 ∧ R (m.run.run s).2 (m'.run.run s').2

namespace Step.Mirrors

variable {α β : Type} {R : State → State → Prop}

theorem pure (a : α) : Mirrors R (pure a) (pure a) := fun _ _ h => ⟨rfl, h⟩

theorem bind {m m' : Step α} {f f' : α → Step β} (hm : Mirrors R m m')
    (hf : ∀ a, Mirrors R (f a) (f' a)) : Mirrors R (m >>= f) (m' >>= f') := by
  intro s s' hs
  have h := hm s s' hs
  rw [run_bind, run_bind]
  generalize m.run.run s = run at h ⊢
  generalize m'.run.run s' = run' at h ⊢
  obtain ⟨outcome, t⟩ := run
  obtain ⟨outcome', t'⟩ := run'
  obtain ⟨rfl, hr⟩ := h
  cases outcome with
  | error e => exact ⟨rfl, hr⟩
  | ok a => exact hf a t t' hr

theorem tryCatch {m m' : Step α} {handle handle' : Relation.WriteError → Step α}
    (hm : Mirrors R m m') (hh : ∀ e, Mirrors R (handle e) (handle' e)) :
    Mirrors R (tryCatch m handle) (tryCatch m' handle') := by
  intro s s' hs
  have h := hm s s' hs
  rw [run_tryCatch, run_tryCatch]
  generalize m.run.run s = run at h ⊢
  generalize m'.run.run s' = run' at h ⊢
  obtain ⟨outcome, t⟩ := run
  obtain ⟨outcome', t'⟩ := run'
  obtain ⟨rfl, hr⟩ := h
  cases outcome with
  | error e => exact hh e t t' hr
  | ok a => exact ⟨rfl, hr⟩

theorem mapM {f f' : α → Step β} {l : List α} (h : ∀ a ∈ l, Mirrors R (f a) (f' a)) :
    Mirrors R (l.mapM f) (l.mapM f') := by
  induction l with
  | nil => exact pure []
  | cons a rest ih =>
    rw [List.mapM_cons, List.mapM_cons]
    exact (h a List.mem_cons_self).bind fun _ =>
      (ih fun b hb => h b (List.mem_cons_of_mem a hb)).bind fun _ => pure _

theorem forIn {f f' : α → Step β} {l : List α} (h : ∀ a ∈ l, Mirrors R (f a) (f' a)) :
    Mirrors R
      (forIn l PUnit.unit fun a _ => do
        let _ ← f a
        Pure.pure (ForInStep.yield PUnit.unit))
      (forIn l PUnit.unit fun a _ => do
        let _ ← f' a
        Pure.pure (ForInStep.yield PUnit.unit)) := by
  induction l with
  | nil => exact pure _
  | cons a rest ih =>
    rw [List.forIn_cons, List.forIn_cons]
    refine ((h a List.mem_cons_self).bind fun _ => pure _).bind fun r => ?_
    cases r with
    | done => exact pure _
    | yield => exact ih fun b hb => h b (List.mem_cons_of_mem a hb)

end Step.Mirrors

/-! States that differ in failures. -/

/-- The path of a request that fails. -/
def Store.failingPath? (store : Store) : Request → Option String
  | .fetch path _ _ => if path ∈ store.failingFetches then some path else none
  | .list path => if path ∈ store.failingListings then some path else none

/-- The paths of the requests that failed, in order. -/
def failedPaths (store : Store) (requests : List Request) : List (Option String) :=
  (requests.filterMap store.failingPath?).map some

def Result.withErrors (r : Result) (errors : List Issue) : Result := { r with errors }

/-- Both exports have done the same, but one has noted each request of its own that failed. -/
structure Contained (store : Store) (s s' : State) : Prop where
  result : s.result = s'.result.withErrors s.result.errors
  writer : s.writer = s'.writer
  files : s.files = s'.files
  goes : s.cancellation = .never
  goes' : s'.cancellation = .never
  failures : ∃ failures, Joined s'.result.errors failures s.result.errors ∧
    failures.map (·.path) = failedPaths store s.requests.reverse

/-- What is done to a result has nothing to do with its errors. -/
def SparesErrors (f : Result → Result) : Prop :=
  ∀ (r : Result) (errors : List Issue), f (r.withErrors errors) = (f r).withErrors errors

theorem sparesErrors_ensure (name : String) (depth : Int) (parent : Option String) :
    SparesErrors (·.ensure name depth parent) := by
  intro r errors
  unfold Result.ensure Result.withErrors
  dsimp only
  split <;> rfl

namespace Contained

variable {store : Store} {s s' : State} {α : Type} {m m' : Step α} {request : Request}
  {path relation key message : String} {ctx : Context}

theorem of_result (h : Contained store s s') {f : Result → Result} (hf : SparesErrors f) :
    Contained store { s with result := f s.result } { s' with result := f s'.result } := by
  have herrors (r : Result) : (f r).errors = r.errors := by
    have h := congrArg Result.errors (hf r r.errors)
    exact h
  have hresult : f s.result = (f s'.result).withErrors s.result.errors := by
    rw [h.result]
    exact hf s'.result s.result.errors
  refine ⟨?_, h.writer, h.files, h.goes, h.goes', ?_⟩
  · rw [herrors]
    exact hresult
  · rw [herrors, herrors]
    exact h.failures

theorem updateResult {f : Result → Result} (hf : SparesErrors f) :
    Step.Mirrors (Contained store) (Export.updateResult f) (Export.updateResult f) :=
  fun _ _ h => ⟨rfl, h.of_result hf⟩

/-- An error that both exports meet. -/
theorem noteError (ctx : Context) (message path : String) :
    Step.Mirrors (Contained store) (noteError ctx message path) (noteError ctx message path) := by
  intro s s' h
  obtain ⟨failures, hjoined, hpaths⟩ := h.failures
  refine ⟨rfl, ⟨?_, h.writer, h.files, h.goes, h.goes', failures, hjoined.concat_left _, hpaths⟩⟩
  have hresult := h.result
  change s.result.addError _ _ _ = _
  rw [hresult]
  rfl

theorem asked_left {f : Bool → Step α} (h : Step.Mirrors (Contained store) (f false) m') :
    Step.Mirrors (Contained store) (isCancelled >>= f) m' := by
  intro s s' hs
  rw [Step.run_of_bind (Step.runs_isCancelled hs.goes)]
  exact h s s' hs

theorem asked_right {f : Bool → Step α} (h : Step.Mirrors (Contained store) m (f false)) :
    Step.Mirrors (Contained store) m (isCancelled >>= f) := by
  intro s s' hs
  rw [Step.run_of_bind (Step.runs_isCancelled hs.goes')]
  exact h s s' hs

theorem requested_left (hr : store.failingPath? request = none)
    (h : Step.Mirrors (Contained store) m m') :
    Step.Mirrors (Contained store) (logRequest request >>= fun _ => m) m' := by
  intro s s' hs
  rw [Step.run_of_bind (Step.runs_logRequest request s)]
  refine h _ s' ⟨hs.result, hs.writer, hs.files, hs.goes, hs.goes', ?_⟩
  have hsame : failedPaths store (request :: s.requests).reverse =
      failedPaths store s.requests.reverse := by
    simp [failedPaths, hr]
  rw [hsame]
  exact hs.failures

theorem requested_right (h : Step.Mirrors (Contained store) m m') :
    Step.Mirrors (Contained store) m (logRequest request >>= fun _ => m') := by
  intro s s' hs
  rw [Step.run_of_bind (Step.runs_logRequest request s')]
  exact h s _ ⟨hs.result, hs.writer, hs.files, hs.goes, hs.goes', hs.failures⟩

/-- A request that fails is noted, and the export goes on. -/
theorem failed_left (hr : store.failingPath? request = some path)
    (h : Step.Mirrors (Contained store) m m') :
    Step.Mirrors (Contained store)
      (logRequest request >>= fun _ => Export.noteError ctx message path >>= fun _ => m) m' := by
  intro s s' hs
  rw [Step.run_of_bind (Step.runs_logRequest request s), Export.noteError,
    Step.run_of_bind (Step.runs_updateResult _ _)]
  refine h _ s' ⟨?_, hs.writer, hs.files, hs.goes, hs.goes', ?_⟩
  · change s.result.addError _ _ _ = _
    rw [hs.result]
    rfl
  · obtain ⟨failures, hjoined, hpaths⟩ := hs.failures
    refine ⟨_, hjoined.concat_right ⟨message, some path, ctx.period.start⟩, ?_⟩
    rw [List.map_append, hpaths]
    simp [failedPaths, hr]

/-! Writing records. -/

theorem writeToFile (relation : String) (value : Document.Value) :
    Step.Mirrors (Contained store) (writeToFile relation value) (writeToFile relation value) := by
  intro s s' h
  rw [Step.run_writeToFile, Step.run_writeToFile, h.writer, h.files]
  rcases s'.writer.write s'.files relation value with ⟨_ | w, t⟩
  · exact ⟨rfl, h.result, rfl, rfl, h.goes, h.goes', h.failures⟩
  · exact ⟨rfl, h.result, rfl, rfl, h.goes, h.goes', h.failures⟩

theorem storeRecord (relation : String) (depth : Int) (value : Document.Value) :
    Step.Mirrors (Contained store) (storeRecord relation depth value)
      (storeRecord relation depth value) := by
  refine (writeToFile relation value).bind fun _ => updateResult fun r errors => ?_
  have h := sparesErrors_ensure relation depth none r errors
  exact congrArg (·.addCount relation 1) h

theorem emitAll (emissions : List (String × Document.Value)) :
    Step.Mirrors (Contained store) (emitAll emissions) (emitAll emissions) := by
  induction emissions with
  | nil => exact .pure _
  | cons a rest ih =>
    unfold Export.emitAll
    have hemit : Step.Mirrors (Contained store) (emit a.1 a.2) (emit a.1 a.2) := storeRecord _ 0 a.2
    refine ((hemit.bind fun _ => .pure _).tryCatch fun e => .pure _).bind fun outcome => ?_
    cases outcome with
    | ok => exact ih
    | error e => exact .pure _

theorem applyHook (ctx : Context) (relation : String) (record : Document.Entries) :
    Step.Mirrors (Contained store) (applyHook ctx relation record) (applyHook ctx relation record) := by
  unfold Export.applyHook
  split
  · exact .pure _
  · dsimp only
    refine (emitAll _).bind fun outcome => ?_
    cases outcome with
    | ok => exact .pure _
    | error e => exact .pure _

theorem meet (relation key : String) :
    Step.Mirrors (Contained store) (meet relation key) (meet relation key) := by
  intro s s' h
  have hseen : s.result.seen = s'.result.seen := by
    have hseen := congrArg Result.seen h.result
    exact hseen
  rw [Step.run_meet, Step.run_meet, hseen]
  split
  · exact ⟨rfl, h⟩
  · exact ⟨rfl, h.of_result (f := fun r => { r with seen := (relation, key) :: r.seen })
      fun _ _ => rfl⟩

theorem writeRecord (ctx : Context) (relation : String) (record : Document.Entries) (key : String)
    (depth : Nat) : Step.Mirrors (Contained store) (writeRecord ctx relation record key depth)
      (writeRecord ctx relation record key depth) := by
  rw [Step.writeRecord_eq]
  refine (meet relation key).bind fun isNew => ?_
  cases isNew with
  | false => exact (updateResult fun _ _ => rfl).bind fun _ => .pure _
  | true =>
    refine (applyHook ctx relation record).bind fun outcome => ?_
    cases outcome with
    | fail message => exact (noteError ctx _ key).bind fun _ => .pure _
    | drop => exact (updateResult fun _ _ => rfl).bind fun _ => .pure _
    | keep value => exact (storeRecord relation depth value).bind fun _ => .pure _

end Contained
end BackendMigration.Export
