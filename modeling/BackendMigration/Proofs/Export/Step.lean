import BackendMigration.Export.Result
import BackendMigration.Export.Walk

/-! The relations of a result. -/
namespace BackendMigration.Export.Result

theorem mem_keys_ensure {result : Result} {name r : String} {depth : Int}
    {parent : Option String} : r ∈ Keyed.keys (result.ensure name depth parent).relations ↔
      r ∈ Keyed.keys result.relations ∨ r = name := by
  unfold ensure
  split
  · rename_i h
    rw [Keyed.has_iff] at h
    constructor
    · exact .inl
    · rintro (hr | rfl)
      · exact hr
      · exact h
  · rename_i h
    rw [Keyed.keys_set, if_neg h, List.mem_append, List.mem_singleton]

theorem keys_addCount (result : Result) (name : String) (n : Int) :
    Keyed.keys (result.addCount name n).relations = Keyed.keys result.relations := by
  simp only [addCount, Keyed.keys, List.map_map]
  refine List.map_congr_left fun e _ => ?_
  simp only [Function.comp_apply]
  split <;> rfl

/-- Only the relations change. -/
theorem ensure_eq (result : Result) (name : String) (depth : Int) (parent : Option String) :
    ∃ relations, result.ensure name depth parent = { result with relations } := by
  unfold ensure
  split
  · exact ⟨result.relations, rfl⟩
  · exact ⟨_, rfl⟩

theorem seen_ensure (result : Result) (name : String) (depth : Int) (parent : Option String) :
    (result.ensure name depth parent).seen = result.seen := by
  obtain ⟨relations, h⟩ := result.ensure_eq name depth parent
  rw [h]

/-- The relations made sure of are those known before and at most one that has no record yet. -/
theorem cancelled_ensure (result : Result) (name : String) (depth : Int) (parent : Option String) :
    (result.ensure name depth parent).cancelled = result.cancelled := by
  obtain ⟨relations, h⟩ := result.ensure_eq name depth parent
  rw [h]

theorem mem_ensure {result : Result} {name : String} {depth : Int} {parent : Option String}
    {e : String × Relation} (h : e ∈ (result.ensure name depth parent).relations) :
    e ∈ result.relations ∨ e = (name, { name, depth, parent }) ∧ name ∉ Keyed.keys result.relations := by
  unfold ensure at h
  split at h
  · exact .inl h
  · rename_i hnew
    rw [Keyed.has_iff] at hnew
    rcases Keyed.mem_set h with rfl | h
    · exact .inr ⟨rfl, hnew⟩
    · exact .inl h

/-- A relation with a record more is one of those before. -/
theorem exists_of_mem_addCount {result : Result} {name : String} {n : Int} {e : String × Relation}
    (h : e ∈ (result.addCount name n).relations) : ∃ f ∈ result.relations,
      e = (f.1, { f.2 with count := f.2.count + if f.1 = name then n else 0 }) := by
  obtain ⟨f, hf, rfl⟩ := List.mem_map.1 h
  refine ⟨f, hf, ?_⟩
  by_cases hn : f.1 = name
  · simp [hn]
  · simp [hn]

end BackendMigration.Export.Result

/-! Steps of an export that end without an error. -/
namespace BackendMigration.Export

/-- From one state a step goes to another one and gives a result. -/
def Step.Runs {α : Type} (m : Step α) (s : State) (a : α) (s' : State) : Prop :=
  m.run.run s = (.ok a, s')

/-- The state after a document is met. -/
def State.met (s : State) (relation key : String) : State :=
  { s with result := { s.result with seen := (relation, key) :: s.result.seen } }

/-- Meet a document. Tells whether it is new. -/
def meet (relation key : String) : Step Bool := modifyGet fun s =>
  let (isNew, result) := s.result.markSeen relation key
  (isNew, { s with result })

/-- Write a record and count it. -/
def storeRecord (relation : String) (depth : Int) (value : Document.Value) : Step Unit := do
  writeToFile relation value
  updateResult fun r => (r.ensure relation depth none).addCount relation 1

namespace Step

variable {α β : Type} {s s' s'' : State}

theorem run_bind (m : Step α) (f : α → Step β) (s : State) :
    (m >>= f).run.run s =
      match m.run.run s with
      | (.ok a, s') => (f a).run.run s'
      | (.error e, s') => (.error e, s') := by
  rw [ExceptT.run_bind, StateT.run_bind]
  rcases m.run.run s with ⟨_ | _, s'⟩ <;> rfl

/-- What is made of a result makes no difference to the state. -/
theorem snd_run_bind_pure (m : Step α) (f : α → β) (s : State) :
    ((m >>= fun a => pure (f a)).run.run s).2 = (m.run.run s).2 := by
  rw [run_bind]
  rcases m.run.run s with ⟨_ | _, s'⟩ <;> rfl

theorem run_tryCatch (m : Step α) (handle : Relation.WriteError → Step α) (s : State) :
    (tryCatch m handle).run.run s =
      match m.run.run s with
      | (.ok a, s') => (.ok a, s')
      | (.error e, s') => (handle e).run.run s' := by
  change StateT.run (ExceptT.tryCatch m handle).run s = _
  rw [ExceptT.tryCatch, ExceptT.run_mk, StateT.run_bind]
  have hrun : StateT.run m s = m.run.run s := rfl
  rw [hrun]
  rcases m.run.run s with ⟨_ | _, s'⟩ <;> rfl

theorem Runs.pure (a : α) (s : State) : Runs (pure a) s a s := rfl

theorem Runs.bind {m : Step α} {f : α → Step β} {a : α} {b : β} (h : Runs m s a s')
    (h' : Runs (f a) s' b s'') : Runs (m >>= f) s b s'' := by
  have hm : m.run.run s = (.ok a, s') := h
  have hf : (f a).run.run s' = (.ok b, s'') := h'
  unfold Runs
  rw [ExceptT.run_bind, StateT.run_bind, hm]
  exact hf

theorem run_of_bind {m : Step α} {f : α → Step β} {a : α} (h : Runs m s a s') :
    (m >>= f).run.run s = (f a).run.run s' := by
  have hm : m.run.run s = (.ok a, s') := h
  rw [run_bind, hm]

theorem runs_updateResult (f : Result → Result) (s : State) :
    Runs (updateResult f) s () { s with result := f s.result } :=
  rfl

theorem runs_logRequest (request : Request) (s : State) :
    Runs (logRequest request) s () { s with requests := request :: s.requests } :=
  rfl

theorem runs_isCancelled (h : s.cancellation = .never) : Runs isCancelled s false s := by
  obtain ⟨result, writer, files, requests, cancellation⟩ := s
  obtain rfl : cancellation = .never := h
  rfl

theorem runs_writeToFile {relation : String} {record : Document.Value} {w : Relation.Writer}
    {t : File.Tree} (h : s.writer.write s.files relation record = (.ok w, t)) :
    Runs (writeToFile relation record) s () { s with writer := w, files := t } := by
  unfold writeToFile
  refine Runs.bind (rfl : Runs get s s s) ?_
  rw [h]
  rfl

theorem runs_applyHook {ctx : Context} (h : ctx.hooks = []) (relation : String)
    (record : Document.Entries) (s : State) :
    Runs (applyHook ctx relation record) s (.keep (.map record)) s := by
  unfold applyHook
  rw [h]
  rfl

/-- What is recorded of a document that is written. -/
def recorded (s : State) (relation key : String) (depth : Nat) : Result :=
  (({ s.result with seen := (relation, key) :: s.result.seen } : Result).ensure relation depth
    none).addCount relation 1

variable {ctx : Context} {relation key : String} {record : Document.Entries} {depth : Nat}

theorem run_meet (relation key : String) (s : State) : (meet relation key).run.run s =
    if (relation, key) ∈ s.result.seen then (.ok false, s) else (.ok true, s.met relation key) := by
  change (Except.ok (s.result.markSeen relation key).1,
    { s with result := (s.result.markSeen relation key).2 }) = _
  unfold Result.markSeen
  split <;> rfl

/-- A record goes through its steps: its document is met, its hook applied, and what the hook keeps
is stored. -/
theorem writeRecord_eq : writeRecord ctx relation record key depth = (do
    if !(← meet relation key) then
      updateResult fun r => { r with duplicatesSkipped := r.duplicatesSkipped + 1 }
      return false
    match ← applyHook ctx relation record with
    | .fail message =>
      noteError ctx ("Hook failed: " ++ message) key
      return false
    | .drop =>
      updateResult fun r => { r with documentsDropped := r.documentsDropped + 1 }
      return false
    | .keep value =>
      storeRecord relation depth value
      return true) := by
  unfold writeRecord
  refine bind_congr fun isNew => ?_
  cases isNew with
  | false => rfl
  | true =>
    refine bind_congr fun outcome => ?_
    cases outcome with
    | fail message => rfl
    | drop => rfl
    | keep value =>
      dsimp only
      rw [storeRecord, bind_assoc]

/-- A document met before is not written. -/
theorem runs_writeRecord_of_seen (h : (relation, key) ∈ s.result.seen) :
    Runs (writeRecord ctx relation record key depth) s false
      { s with result := { s.result with duplicatesSkipped := s.result.duplicatesSkipped + 1 } } := by
  have hmeet : Runs (meet relation key) s false s := by
    rw [Runs, run_meet, if_pos h]
  rw [writeRecord_eq]
  exact hmeet.bind ((runs_updateResult _ s).bind (.pure false _))

/-- Without hooks a new document is stored. -/
theorem run_writeRecord_of_new (hhooks : ctx.hooks = []) (h : (relation, key) ∉ s.result.seen) :
    (writeRecord ctx relation record key depth).run.run s =
      (storeRecord relation depth (.map record) >>= fun _ => pure true).run.run
        (s.met relation key) := by
  have hmeet : Runs (meet relation key) s true (s.met relation key) := by
    rw [Runs, run_meet, if_neg h]
  rw [writeRecord_eq, run_of_bind hmeet]
  exact run_of_bind (runs_applyHook hhooks relation record (s.met relation key))

theorem runs_writeRecord_of_new (hhooks : ctx.hooks = []) (h : (relation, key) ∉ s.result.seen)
    {w : Relation.Writer} {t : File.Tree}
    (hwrite : s.writer.write s.files relation (.map record) = (.ok w, t)) :
    Runs (writeRecord ctx relation record key depth) s true
      { s with result := recorded s relation key depth, writer := w, files := t } := by
  have hstore : Runs (storeRecord relation depth (.map record)) (s.met relation key) ()
      { s with result := recorded s relation key depth, writer := w, files := t } :=
    Runs.bind (runs_writeToFile hwrite) (runs_updateResult _ _)
  rw [Runs, run_writeRecord_of_new hhooks h]
  exact hstore.bind (.pure true _)

/-! Whatever comes of a step. -/

theorem run_writeToFile (relation : String) (value : Document.Value) (s : State) :
    (writeToFile relation value).run.run s =
      match s.writer.write s.files relation value with
      | (.ok w, t) => (.ok (), { s with writer := w, files := t })
      | (.error e, t) => (.error e, { s with files := t }) := by
  unfold writeToFile
  rw [run_bind]
  change (match s.writer.write s.files relation value with
    | (.ok writer, files) => (set { s with writer, files } : Step Unit)
    | (.error e, files) => do
      set { s with files }
      throw e).run.run s = _
  rcases s.writer.write s.files relation value with ⟨_ | _, t⟩ <;> rfl

theorem run_storeRecord (relation : String) (depth : Int) (value : Document.Value) (s : State) :
    (storeRecord relation depth value).run.run s =
      match s.writer.write s.files relation value with
      | (.ok w, t) =>
        (.ok (), { s with
          result := (s.result.ensure relation depth none).addCount relation 1
          writer := w
          files := t })
      | (.error e, t) => (.error e, { s with files := t }) := by
  unfold storeRecord
  rw [run_bind, run_writeToFile]
  rcases s.writer.write s.files relation value with ⟨_ | _, t⟩ <;> rfl

theorem seen_storeRecord (relation : String) (depth : Int) (value : Document.Value) (s : State) :
    ((storeRecord relation depth value).run.run s).2.result.seen = s.result.seen := by
  rw [run_storeRecord]
  rcases s.writer.write s.files relation value with ⟨_ | _, t⟩
  · rfl
  · obtain ⟨relations, h⟩ := s.result.ensure_eq relation depth none
    rw [h]
    rfl

/-- Without hooks a document is written unless it was met before. -/
theorem run_writeRecord (hhooks : ctx.hooks = []) (relation key : String) (record : Document.Entries)
    (depth : Nat) (s : State) : (writeRecord ctx relation record key depth).run.run s =
      if (relation, key) ∈ s.result.seen then
        (.ok false, { s with
          result := { s.result with duplicatesSkipped := s.result.duplicatesSkipped + 1 } })
      else (storeRecord relation depth (.map record) >>= fun _ => pure true).run.run
        (s.met relation key) := by
  by_cases h : (relation, key) ∈ s.result.seen
  · rw [if_pos h]
    exact runs_writeRecord_of_seen h
  · rw [if_neg h]
    exact run_writeRecord_of_new hhooks h

end Step
end BackendMigration.Export
