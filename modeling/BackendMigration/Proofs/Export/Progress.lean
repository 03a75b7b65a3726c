import BackendMigration.Proofs.Export.Record
import BackendMigration.Proofs.Export.Step
import BackendMigration.Proofs.Export.Visit
import BackendMigration.Proofs.Relation.Run

/-! How far an export has come: the documents it has written, and what it has told of them. -/
namespace BackendMigration.Export

open File.Tree (jsonFile)
open BackendMigration.Relation (Holds Writable)

/-- The text of a document's record. -/
def Visit.text (indent : Option Nat) (v : Visit) : Text :=
  (Relation.Writer.recordText indent (.map v.record)).toOption.getD []

/-- An export into a directory that is there: the writer it begins with, the files with the directory
made, and where that is. -/
structure Surroundings where
  ctx : Context
  writer : Relation.Writer
  base : File.Tree
  place : File.Path

namespace Surroundings

/-- Documents go to relations of their own, know their paths and are written as they are, and no
request to the store fails. -/
structure Sound (x : Surroundings) : Prop where
  flatten : x.ctx.settings.mode = .flatten
  hooks : x.ctx.hooks = []
  attached : x.ctx.store.pathless = false
  fetches : x.ctx.store.failingFetches = []
  listings : x.ctx.store.failingListings = []
  directory : x.base.isDirectory x.writer.directory = true

/-- A document's record can be written to the file of its relation. -/
def Ready (x : Surroundings) (v : Visit) : Prop :=
  x.base.Receives (x.writer.path v.relation) (jsonFile x.place v.relation) ∧
    Writable x.writer.indent (.map v.record)

/-- The relations of what is nested in some documents. -/
def Opens (x : Surroundings) (new : List Visit) (r : String) : Prop :=
  ∃ v ∈ new, v.depth < levels x.ctx.settings ∧
    ∃ name ∈ v.nested x.ctx.store, r = nestedRelation v.relation name

/-- The paths of the documents of which the nested collections are listed. -/
def listed (x : Surroundings) (new : List Visit) : List String :=
  (new.filter fun v => v.depth < levels x.ctx.settings).map Visit.path

end Surroundings

/-- The records of each relation after some documents more are written. -/
def added (indent : Option Nat) (records : String → List Text) (new : List Visit) :
    String → List Text := fun r =>
  records r ++ (new.filter fun v => v.relation == r).map (Visit.text indent)

/-- The document of which a request asks for the nested collections. -/
def Request.listedPath? : Request → Option String
  | list path => some path
  | fetch .. => none

/-- The documents of which the nested collections were asked for, the last one first. -/
def State.listings (s : State) : List String := s.requests.filterMap Request.listedPath?

variable {x : Surroundings} {records : String → List Text} {s s' s'' : State} {new new' : List Visit}
  {opened opened' : String → Prop} {paths paths' : List String}

/-- The files hold some records, and the export is not cancelled. -/
structure Surroundings.Has (x : Surroundings) (records : String → List Text) (s : State) : Prop where
  never : s.cancellation = .never
  holds : Holds x.writer x.base x.place s.writer s.files records []

/-- From one state to another some documents are written, relations opened and documents listed. -/
structure Surroundings.Advances (x : Surroundings) (records : String → List Text) (s : State)
    (new : List Visit) (opened : String → Prop) (paths : List String) (s' : State) : Prop where
  seen : s'.result.seen = (new.map Visit.key).reverse ++ s.result.seen
  relations : ∀ r, r ∈ Keyed.keys s'.result.relations ↔
    r ∈ Keyed.keys s.result.relations ∨ opened r
  known : ∀ v ∈ new, v.relation ∈ Keyed.keys s'.result.relations
  errors : s'.result.errors = s.result.errors
  listings : s'.listings = paths.reverse ++ s.listings
  has : x.Has (added x.writer.indent records new) s'

theorem added_nil (indent : Option Nat) (records : String → List Text) :
    added indent records [] = records := by
  funext r
  simp [added]

theorem added_append (indent : Option Nat) (records : String → List Text) (new new' : List Visit) :
    added indent records (new ++ new') = added indent (added indent records new) new' := by
  funext r
  simp [added]

namespace Surroundings

theorem Has.of_eq (h : x.Has records s) (hc : s'.cancellation = s.cancellation)
    (hw : s'.writer = s.writer) (hf : s'.files = s.files) : x.Has records s' :=
  ⟨hc.trans h.never, by rw [hw, hf]; exact h.holds⟩

namespace Advances

theorem trans (h : x.Advances records s new opened paths s')
    (h' : x.Advances (added x.writer.indent records new) s' new' opened' paths' s'') :
    x.Advances records s (new ++ new') (fun r => opened r ∨ opened' r) (paths ++ paths') s'' := by
  have hkeys : ∀ r, r ∈ Keyed.keys s'.result.relations → r ∈ Keyed.keys s''.result.relations :=
    fun r hr => (h'.relations r).2 (.inl hr)
  constructor
  · rw [h'.seen, h.seen, List.map_append, List.reverse_append, List.append_assoc]
  · intro r
    rw [h'.relations, h.relations, or_assoc]
  · intro v hv
    rcases List.mem_append.1 hv with hv | hv
    · exact hkeys _ (h.known v hv)
    · exact h'.known v hv
  · rw [h'.errors, h.errors]
  · rw [h'.listings, h.listings, List.reverse_append, List.append_assoc]
  · rw [added_append]
    exact h'.has

/-- A relation that holds a record is known. -/
theorem mem_keys_of_added (h : x.Advances (fun _ => []) s new opened paths s') {r : String}
    (hr : added x.writer.indent (fun _ => []) new r ≠ []) :
    r ∈ Keyed.keys s'.result.relations := by
  obtain ⟨text, htext⟩ := List.exists_mem_of_ne_nil _ hr
  simp only [added, List.nil_append, List.mem_map, List.mem_filter, beq_iff_eq] at htext
  obtain ⟨v, ⟨hv, rfl⟩, -⟩ := htext
  exact h.known v hv

theorem congr (h : x.Advances records s new opened paths s') (ho : ∀ r, opened r ↔ opened' r)
    (hp : paths = paths') : x.Advances records s new opened' paths' s' :=
  { h with
    relations := fun r => (h.relations r).trans (or_congr_right (ho r))
    listings := hp ▸ h.listings }

/-- Nothing is written. -/
theorem of_same_files (h : x.Has records s) (hc : s'.cancellation = s.cancellation)
    (hw : s'.writer = s.writer) (hf : s'.files = s.files) (hs : s'.result.seen = s.result.seen)
    (hr : ∀ r, r ∈ Keyed.keys s'.result.relations ↔ r ∈ Keyed.keys s.result.relations ∨ opened r)
    (he : s'.result.errors = s.result.errors) (hl : s'.listings = paths.reverse ++ s.listings) :
    x.Advances records s [] opened paths s' := by
  refine ⟨hs, hr, fun v hv => absurd hv List.not_mem_nil, he, hl, ?_⟩
  rw [added_nil]
  exact h.of_eq hc hw hf

end Advances

/-- Documents are written with all that belongs to them. -/
def Exported (x : Surroundings) (records : String → List Text) (s : State) (new : List Visit)
    (s' : State) : Prop :=
  x.Advances records s new (x.Opens new) (x.listed new) s'

theorem opens_append (x : Surroundings) (new new' : List Visit) (r : String) :
    x.Opens (new ++ new') r ↔ x.Opens new r ∨ x.Opens new' r := by
  simp only [Opens, List.mem_append, or_and_right, exists_or]

theorem listed_append (x : Surroundings) (new new' : List Visit) :
    x.listed (new ++ new') = x.listed new ++ x.listed new' := by
  simp only [listed, List.filter_append, List.map_append]

/-- Nothing is written, opened or listed. -/
theorem Exported.of_same (h : x.Has records s) (hc : s'.cancellation = s.cancellation)
    (hw : s'.writer = s.writer) (hf : s'.files = s.files) (hs : s'.result.seen = s.result.seen)
    (hr : s'.result.relations = s.result.relations) (he : s'.result.errors = s.result.errors)
    (hl : s'.listings = s.listings) : x.Exported records s [] s' :=
  Advances.of_same_files h hc hw hf hs (fun r => by simp [hr, Opens]) he hl

theorem Exported.refl (h : x.Has records s) : x.Exported records s [] s :=
  .of_same h rfl rfl rfl rfl rfl rfl rfl

theorem Exported.trans (h : x.Exported records s new s')
    (h' : x.Exported (added x.writer.indent records new) s' new' s'') :
    x.Exported records s (new ++ new') s'' :=
  (Advances.trans h h').congr (fun r => (opens_append x new new' r).symm)
    (listed_append x new new').symm

end Surroundings

namespace Surroundings

/-! Steps of a walk. -/

theorem exists_runs_writeRecord (hx : x.Sound) (h : x.Has records s) {v : Visit}
    (hnew : v.key ∉ s.result.seen) (hr : v.relation ∈ Keyed.keys s.result.relations)
    (hready : x.Ready v) :
    ∃ s', Step.Runs (writeRecord x.ctx v.relation v.record v.path v.depth) s true s' ∧
      x.Advances records s [v] (fun _ => False) [] s' := by
  obtain ⟨hreceives, text, htext, hhalves⟩ := hready
  obtain ⟨w, t, hwrite, hholds⟩ := h.holds.write hx.directory hreceives htext hhalves
  refine ⟨_, Step.runs_writeRecord_of_new hx.hooks hnew hwrite, ?_⟩
  have hkeys : ∀ r, r ∈ Keyed.keys (Step.recorded s v.relation v.path v.depth).relations ↔
      r ∈ Keyed.keys s.result.relations := by
    intro r
    rw [Step.recorded, Result.keys_addCount, Result.mem_keys_ensure]
    exact or_iff_left_of_imp fun e => e ▸ hr
  have hkeep : ∀ (result : Result) (name : String) (depth : Int) (parent : Option String),
      (result.ensure name depth parent).seen = result.seen ∧
        (result.ensure name depth parent).errors = result.errors := by
    intro result name depth parent
    obtain ⟨relations, h⟩ := result.ensure_eq name depth parent
    rw [h]
    exact ⟨rfl, rfl⟩
  constructor
  · exact (hkeep _ _ _ _).1
  · intro r
    rw [or_false]
    exact hkeys r
  · intro u hu
    obtain rfl := List.mem_singleton.1 hu
    exact (hkeys u.relation).2 hr
  · exact (hkeep _ _ _ _).2
  · rfl
  · refine ⟨h.never, hholds.congr fun r => ?_⟩
    by_cases hrel : r = v.relation
    · subst hrel
      simp [added, Visit.text, htext, Except.toOption]
    · have : (v.relation == r) = false := by simpa using fun e => hrel e.symm
      simp [added, hrel, this]

theorem exists_runs_writeRecord_of_seen (h : x.Has records s) {v : Visit}
    (hseen : v.key ∈ s.result.seen) :
    ∃ s', Step.Runs (writeRecord x.ctx v.relation v.record v.path v.depth) s false s' ∧
      x.Exported records s [] s' := by
  exact ⟨_, Step.runs_writeRecord_of_seen hseen, .of_same h rfl rfl rfl rfl rfl rfl rfl⟩

end Surroundings
end BackendMigration.Export
