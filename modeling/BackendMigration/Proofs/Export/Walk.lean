import BackendMigration.Proofs.Export.Progress

/-! A walk that goes on below new documents writes exactly these. -/
namespace BackendMigration.Export.Surroundings

variable {x : Surroundings} {records : String → List Text} {s : State}

/-- A step writes the new documents among a document and what is nested in it. -/
def Exports (x : Surroundings) (visit : Visit → List (String × String) → List Visit)
    (step : Step Document.Entries) (v : Visit) : Prop :=
  ∀ (records : String → List Text) (s : State), x.Has records s →
    v.relation ∈ Keyed.keys s.result.relations → (∀ w ∈ visit v s.result.seen, x.Ready w) →
    ∃ s', step.Runs s v.record s' ∧ x.Exported records s (visit v s.result.seen) s'

variable {visit : Visit → List (String × String) → List Visit}
  {step : StoredDocument → Step Document.Entries} {meet : StoredDocument → Visit}

/-- The first document in turn. -/
theorem Exports.first {d : StoredDocument} {rest : List StoredDocument}
    (h : x.Exports visit (step d) (meet d)) (hs : x.Has records s)
    (hr : ∀ e ∈ d :: rest, (meet e).relation ∈ Keyed.keys s.result.relations)
    (hready : ∀ w ∈ pruneAll visit ((d :: rest).map meet) s.result.seen, x.Ready w) :
    ∃ s₁, (step d).Runs s (meet d).record s₁ ∧
      x.Exported records s (visit (meet d) s.result.seen) s₁ ∧
      (∀ e ∈ rest, (meet e).relation ∈ Keyed.keys s₁.result.relations) ∧
      (∀ w ∈ pruneAll visit (rest.map meet) s₁.result.seen, x.Ready w) ∧
      pruneAll visit ((d :: rest).map meet) s.result.seen =
        visit (meet d) s.result.seen ++ pruneAll visit (rest.map meet) s₁.result.seen := by
  rw [List.map_cons, pruneAll] at hready
  obtain ⟨s₁, hrun, hexported⟩ := h records s hs (hr d List.mem_cons_self)
    fun w hw => hready w (List.mem_append_left _ hw)
  rw [← hexported.seen] at hready
  refine ⟨s₁, hrun, hexported, fun e he => ?_, fun w hw => hready w (List.mem_append_right _ hw), ?_⟩
  · exact (hexported.relations _).2 (.inl (hr e (List.mem_cons_of_mem d he)))
  · rw [List.map_cons, pruneAll, ← hexported.seen]

theorem exists_runs_mapM {documents : List StoredDocument}
    (h : ∀ d ∈ documents, x.Exports visit (step d) (meet d)) (hs : x.Has records s)
    (hr : ∀ d ∈ documents, (meet d).relation ∈ Keyed.keys s.result.relations)
    (hready : ∀ w ∈ pruneAll visit (documents.map meet) s.result.seen, x.Ready w) :
    ∃ s', (documents.mapM step).Runs s (documents.map fun d => (meet d).record) s' ∧
      x.Exported records s (pruneAll visit (documents.map meet) s.result.seen) s' := by
  induction documents generalizing records s with
  | nil => exact ⟨s, rfl, .refl hs⟩
  | cons d rest ih =>
    obtain ⟨s₁, hrun, hfirst, hr₁, hready₁, hsplit⟩ :=
      (h d List.mem_cons_self).first hs hr hready
    obtain ⟨s₂, hruns, hrest⟩ :=
      ih (fun e he => h e (List.mem_cons_of_mem d he)) hfirst.has hr₁ hready₁
    refine ⟨s₂, ?_, ?_⟩
    · rw [List.mapM_cons]
      exact hrun.bind (hruns.bind rfl)
    · rw [hsplit]
      exact hfirst.trans hrest

theorem exists_runs_forIn {documents : List StoredDocument}
    (h : ∀ d ∈ documents, x.Exports visit (step d) (meet d)) (hs : x.Has records s)
    (hr : ∀ d ∈ documents, (meet d).relation ∈ Keyed.keys s.result.relations)
    (hready : ∀ w ∈ pruneAll visit (documents.map meet) s.result.seen, x.Ready w) :
    ∃ s', Step.Runs (forIn documents PUnit.unit fun d _ => do
        let _ ← step d
        pure (ForInStep.yield PUnit.unit)) s PUnit.unit s' ∧
      x.Exported records s (pruneAll visit (documents.map meet) s.result.seen) s' := by
  induction documents generalizing records s with
  | nil => exact ⟨s, rfl, .refl hs⟩
  | cons d rest ih =>
    obtain ⟨s₁, hrun, hfirst, hr₁, hready₁, hsplit⟩ :=
      (h d List.mem_cons_self).first hs hr hready
    obtain ⟨s₂, hruns, hrest⟩ :=
      ih (fun e he => h e (List.mem_cons_of_mem d he)) hfirst.has hr₁ hready₁
    refine ⟨s₂, ?_, ?_⟩
    · rw [List.forIn_cons]
      have hyield : Step.Runs (do
          let _ ← step d
          pure (ForInStep.yield PUnit.unit)) s (ForInStep.yield PUnit.unit) s₁ :=
        hrun.bind (.pure _ s₁)
      exact hyield.bind hruns
    · rw [hsplit]
      exact hfirst.trans hrest

/-! What is nested in a document. -/

theorem fetch_eq (hx : x.Sound) (path : String) (limit offset : Nat) :
    x.ctx.store.fetch path limit offset =
      .ok (((x.ctx.store.documents path).drop offset).take limit) := by
  rw [Store.fetch, hx.fetches, if_neg List.not_mem_nil]

/-- A collection is fetched and has its relation. -/
theorem advances_open (hs : x.Has records s) (path : String) (limit : Nat) (r : String)
    (depth : Int) (parent : Option String) :
    x.Advances records s [] (· = r) []
      { s with
        requests := .fetch path limit 0 :: s.requests
        result := s.result.ensure r depth parent } := by
  refine .of_same_files hs rfl rfl rfl ?_ (fun r' => Result.mem_keys_ensure) ?_ rfl
  · unfold Result.ensure
    split <;> rfl
  · unfold Result.ensure
    split <;> rfl

theorem exists_runs_walkCollections (hx : x.Sound) {v : Visit}
    {step : StoredDocument → String → String → Linkage → Step Document.Entries}
    (h : ∀ name d, x.Exports visit (step d (nestedRelation v.relation name) (v.path ++ "/" ++ name)
      ⟨v.relation, v.document.id, v.path ++ "/" ++ name⟩) (v.child name d))
    {names : List String} (hs : x.Has records s)
    (hready : ∀ w ∈ pruneAll visit
      (names.flatMap (v.children x.ctx.store x.ctx.settings.subcollectionLimit)) s.result.seen,
      x.Ready w) :
    ∃ nested s', Step.Runs
        (walkCollections x.ctx step v.document v.relation v.depth v.path names) s nested s' ∧
      ∃ new, new = pruneAll visit
          (names.flatMap (v.children x.ctx.store x.ctx.settings.subcollectionLimit)) s.result.seen ∧
        x.Advances records s new
          (fun r => (∃ name ∈ names, r = nestedRelation v.relation name) ∨ x.Opens new r)
          (x.listed new) s' := by
  induction names generalizing records s with
  | nil => exact ⟨[], s, rfl, [], rfl, (Exported.refl hs).congr (fun r => by simp) rfl⟩
  | cons name rest ih =>
    let path := v.path ++ "/" ++ name
    let limit := x.ctx.settings.subcollectionLimit
    let documents := (x.ctx.store.documents path).take limit
    let opened : State :=
      { s with
        requests := .fetch path limit 0 :: s.requests
        result := s.result.ensure (nestedRelation v.relation name) (v.depth + 1) (some v.relation) }
    have hopen : x.Advances records s [] (· = nestedRelation v.relation name) [] opened :=
      advances_open hs path limit _ _ _
    have hseen : opened.result.seen = s.result.seen := hopen.seen
    rw [List.flatMap_cons, pruneAll_append, ← hseen] at hready ⊢
    have hknown : ∀ d ∈ documents, (v.child name d).relation ∈ Keyed.keys opened.result.relations :=
      fun d _ => (hopen.relations _).2 (.inr rfl)
    obtain ⟨s₁, hrun, hfirst⟩ := exists_runs_mapM (fun d _ => h name d) hopen.has hknown
      fun w hw => hready w (List.mem_append_left _ hw)
    have hseen₁ : s₁.result.seen = ((pruneAll visit
        (v.children x.ctx.store limit name) opened.result.seen).map Visit.key).reverse ++
          opened.result.seen := hfirst.seen
    rw [← hseen₁] at hready ⊢
    obtain ⟨nested, s₂, hruns, new, rfl, hrest⟩ := ih hfirst.has
      fun w hw => hready w (List.mem_append_right _ hw)
    refine ⟨(.text name, .list ((documents.map fun d => (v.child name d).record).map .map)) :: nested,
      s₂, ?_, _, rfl, (hopen.trans (Advances.trans hfirst hrest)).congr (fun r => ?_) ?_⟩
    · unfold walkCollections
      refine (Step.runs_isCancelled hs.never).bind ?_
      refine (Step.runs_logRequest _ s).bind ?_
      rw [fetch_eq hx]
      simp only [hx.flatten, if_true]
      refine (Step.runs_updateResult _ _).bind ?_
      exact hrun.bind (hruns.bind (.pure _ s₂))
    · rw [opens_append]
      simp only [List.mem_cons, or_and_right, exists_or, exists_eq_left]
      have hchildren : v.children x.ctx.store x.ctx.settings.subcollectionLimit name =
        documents.map (v.child name) := rfl
      rw [hchildren, or_assoc]
      exact or_congr_right or_left_comm
    · rw [listed_append]
      rfl

theorem exists_runs_walkDocument (hx : x.Sound) {v : Visit}
    {step : StoredDocument → String → String → Linkage → Step Document.Entries}
    (h : ∀ name d, x.Exports visit (step d (nestedRelation v.relation name) (v.path ++ "/" ++ name)
      ⟨v.relation, v.document.id, v.path ++ "/" ++ name⟩) (v.child name d))
    (hs : x.Has records s)
    (hready : ∀ w ∈ pruneAll visit
      (v.below x.ctx.store x.ctx.settings.subcollectionLimit) s.result.seen, x.Ready w) :
    ∃ nested s', Step.Runs
        (walkDocument x.ctx step v.document v.relation v.depth v.collectionPath) s nested s' ∧
      ∃ new, new = pruneAll visit
          (v.below x.ctx.store x.ctx.settings.subcollectionLimit) s.result.seen ∧
        x.Advances records s new
          (fun r => (∃ name ∈ v.nested x.ctx.store, r = nestedRelation v.relation name) ∨
            x.Opens new r) (v.path :: x.listed new) s' := by
  let asked : State := { s with requests := .list v.path :: s.requests }
  have hasked : x.Advances records s [] (fun _ => False) [v.path] asked :=
    .of_same_files hs rfl rfl rfl rfl (fun r => by rw [or_false]) rfl rfl
  obtain ⟨nested, s', hrun, new, rfl, hwalk⟩ := exists_runs_walkCollections hx h hasked.has hready
  have hlisting : x.ctx.store.nestedCollections v.path = .ok (v.nested x.ctx.store) := by
    rw [Store.nestedCollections, hx.listings, if_neg List.not_mem_nil, Visit.nested]
  refine ⟨.map nested, s', ?_, _, rfl, (hasked.trans hwalk).congr (fun r => ?_) rfl⟩
  · unfold walkDocument
    refine (Step.runs_logRequest _ s).bind ?_
    have hpath : v.collectionPath ++ "/" ++ v.document.id = v.path := rfl
    rw [hpath, hlisting]
    exact hrun.bind (.pure _ s')
  · rw [false_or]
    rfl

theorem documentKey_eq (hx : x.Sound) (v : Visit) :
    documentKey x.ctx v.relation v.collectionPath v.document = v.path := by
  rw [documentKey, hx.attached]
  rfl

/-- A document is written if it is new, and then what is nested in it. -/
theorem exports_exportDocument (hx : x.Sound) (n : Nat) {v : Visit}
    (hdepth : v.depth + n = levels x.ctx.settings) :
    x.Exports (prune x.ctx.store x.ctx.settings.subcollectionLimit n)
      (exportDocument x.ctx n v.document v.relation v.depth v.collectionPath v.linkage) v := by
  induction n generalizing v with
  | zero =>
    intro records s hs hr hready
    unfold exportDocument
    simp only [hx.flatten, or_true, if_true, documentKey_eq hx]
    by_cases hseen : v.key ∈ s.result.seen
    · rw [prune_of_mem 0 hseen]
      obtain ⟨s', hrun, hexported⟩ := exists_runs_writeRecord_of_seen hs hseen
      exact ⟨s', hrun.bind (.pure _ s'), hexported⟩
    · rw [prune_zero hseen] at hready ⊢
      obtain ⟨s', hrun, hwritten⟩ :=
        exists_runs_writeRecord hx hs hseen hr (hready v (List.mem_singleton_self v))
      have hdeep : ¬v.depth < levels x.ctx.settings := by omega
      refine ⟨s', hrun.bind (.pure _ s'), hwritten.congr (fun r => ?_) ?_⟩
      · simp [Opens, hdeep]
      · simp [listed, hdeep]
  | succ n ih =>
    intro records s hs hr hready
    unfold exportDocument
    simp only [hx.flatten, documentKey_eq hx]
    by_cases hseen : v.key ∈ s.result.seen
    · rw [prune_of_mem _ hseen]
      obtain ⟨s', hrun, hexported⟩ := exists_runs_writeRecord_of_seen hs hseen
      exact ⟨s', hrun.bind (.pure _ s'), hexported⟩
    · rw [prune_succ n hseen] at hready ⊢
      obtain ⟨s₁, hrun, hwritten⟩ :=
        exists_runs_writeRecord hx hs hseen hr (hready v List.mem_cons_self)
      -- The walk below goes on from a state that has seen `v`, as `prune` does.
      have hseen₁ : s₁.result.seen = v.key :: s.result.seen := hwritten.seen
      rw [← hseen₁] at hready ⊢
      let visit (child : StoredDocument) (relation path : String) (l : Linkage) :=
        exportDocument x.ctx n child relation (v.depth + 1) path (some l)
      have hchild : ∀ name d, x.Exports (prune x.ctx.store x.ctx.settings.subcollectionLimit n)
          (visit d (nestedRelation v.relation name) (v.path ++ "/" ++ name)
            ⟨v.relation, v.document.id, v.path ++ "/" ++ name⟩) (v.child name d) := by
        intro name d
        have hd : (v.child name d).depth + n = levels x.ctx.settings := by
          change v.depth + 1 + n = _
          omega
        exact ih hd
      obtain ⟨nested, s₂, hruns, new, rfl, hwalk⟩ := exists_runs_walkDocument hx hchild hwritten.has
        fun w hw => hready w (List.mem_cons_of_mem v hw)
      have hshallow : v.depth < levels x.ctx.settings := by omega
      refine ⟨s₂, hrun.bind (hruns.bind (.pure _ s₂)), (hwritten.trans hwalk).congr (fun r => ?_) ?_⟩
      · simp [Opens, hshallow]
      · simp [listed, hshallow]

/-! The batches of the exported collection. -/

/-- The documents of the exported collection that its limit allows. -/
def rootDocuments (x : Surroundings) : List StoredDocument :=
  let documents := x.ctx.store.documents x.ctx.settings.collection
  if x.ctx.settings.limit = 0 then documents else documents.take x.ctx.settings.limit

theorem roots_eq (x : Surroundings) : roots x.ctx.store x.ctx.settings =
    x.rootDocuments.map (Visit.root x.ctx.settings.collection) :=
  rfl

/-- The size of the batch at an offset. -/
def batchSize (x : Surroundings) (offset : Nat) : Nat :=
  if x.ctx.settings.limit = 0 then x.ctx.settings.batchSize
  else min x.ctx.settings.batchSize (x.ctx.settings.limit - offset)

/-- A batch is what comes next of the documents that the limit allows. -/
theorem batch_eq (x : Surroundings) (offset : Nat) :
    ((x.ctx.store.documents x.ctx.settings.collection).drop offset).take (x.batchSize offset) =
      (x.rootDocuments.drop offset).take x.ctx.settings.batchSize := by
  unfold batchSize rootDocuments
  by_cases h : x.ctx.settings.limit = 0
  · simp only [h, if_true]
  · simp only [h, if_false]
    rw [List.drop_take, List.take_take]

theorem drop_rootDocuments_of_batchSize {offset : Nat} (h : x.batchSize offset = 0) :
    x.rootDocuments.drop offset = [] := by
  have hpos := x.ctx.settings.batchSize_pos
  unfold batchSize at h
  split at h
  · omega
  · rename_i hl
    rw [rootDocuments]
    simp only [hl, if_false]
    rw [List.drop_take, show x.ctx.settings.limit - offset = 0 by omega, List.take_zero]

/-- A batch is fetched, unless the limit is reached. -/
theorem runs_exportBatches (hx : x.Sound) (hs : x.Has records s) {relation : String}
    {batches offset : Nat} {s' : State} (hsize : x.batchSize offset ≠ 0)
    (h : Step.Runs
      (match (x.rootDocuments.drop offset).take x.ctx.settings.batchSize with
      | [] => pure ()
      | batch => do
        for d in batch do
          let _ ← exportDocument x.ctx (levels x.ctx.settings) d relation 0
            x.ctx.settings.collection none
        exportBatches x.ctx relation batches (offset + batch.length))
      { s with
        requests := .fetch x.ctx.settings.collection (x.batchSize offset) offset :: s.requests }
      () s') :
    Step.Runs (exportBatches x.ctx relation (batches + 1) offset) s () s' := by
  have hfold : (if x.ctx.settings.limit = 0 then x.ctx.settings.batchSize
      else min x.ctx.settings.batchSize (x.ctx.settings.limit - offset)) = x.batchSize offset := rfl
  unfold exportBatches
  refine (Step.runs_isCancelled hs.never).bind ?_
  simp only [Bool.false_eq_true, if_false, hfold, hsize]
  refine (Step.runs_logRequest _ s).bind ?_
  rw [fetch_eq hx, batch_eq]
  cases hb : (x.rootDocuments.drop offset).take x.ctx.settings.batchSize with
  | nil =>
    rw [hb] at h
    exact h
  | cons d rest =>
    rw [hb] at h
    exact h

theorem exists_runs_exportBatches (hx : x.Sound) {batches offset : Nat}
    (hb : x.rootDocuments.length < offset + batches) (hs : x.Has records s)
    (hr : Relation.sanitize x.ctx.settings.collection ∈ Keyed.keys s.result.relations)
    (hready : ∀ w ∈ pruneAll
      (prune x.ctx.store x.ctx.settings.subcollectionLimit (levels x.ctx.settings))
      ((x.rootDocuments.drop offset).map (Visit.root x.ctx.settings.collection)) s.result.seen,
      x.Ready w) :
    ∃ s', Step.Runs (exportBatches x.ctx (Relation.sanitize x.ctx.settings.collection) batches offset)
        s () s' ∧
      x.Exported records s (pruneAll
        (prune x.ctx.store x.ctx.settings.subcollectionLimit (levels x.ctx.settings))
        ((x.rootDocuments.drop offset).map (Visit.root x.ctx.settings.collection)) s.result.seen) s' := by
  induction batches generalizing offset records s with
  | zero =>
    have hnil : x.rootDocuments.drop offset = [] := List.drop_of_length_le (by omega)
    rw [hnil]
    exact ⟨s, rfl, .refl hs⟩
  | succ batches ih =>
    by_cases hsize : x.batchSize offset = 0
    · rw [drop_rootDocuments_of_batchSize hsize]
      refine ⟨s, ?_, .refl hs⟩
      unfold exportBatches
      refine (Step.runs_isCancelled hs.never).bind ?_
      change Step.Runs (if x.batchSize offset = 0 then pure () else _) s () s
      rw [if_pos hsize]
      exact .pure () s
    · let asked : State :=
        { s with
          requests := .fetch x.ctx.settings.collection (x.batchSize offset) offset :: s.requests }
      have hasked : x.Exported records s [] asked := .of_same hs rfl rfl rfl rfl rfl rfl rfl
      have hprefix := List.take_prefix x.ctx.settings.batchSize (x.rootDocuments.drop offset)
      have hpos := x.ctx.settings.batchSize_pos
      have hbegin := @runs_exportBatches x records s hx hs
        (Relation.sanitize x.ctx.settings.collection) batches offset
      cases hbatch : (x.rootDocuments.drop offset).take x.ctx.settings.batchSize with
      | nil =>
        have hnil : x.rootDocuments.drop offset = [] := by
          rcases List.take_eq_nil_iff.1 hbatch with h | h
          · omega
          · exact h
        rw [hnil]
        refine ⟨asked, hbegin hsize ?_, hasked⟩
        rw [hbatch]
        exact .pure () asked
      | cons d rest =>
        -- A batch is a prefix of what is left, so the next offset begins right after it.
        rw [hbatch] at hprefix
        have hsplit := List.prefix_iff_eq_append.1 hprefix
        rw [List.drop_drop] at hsplit
        have hdocument : ∀ e ∈ d :: rest, x.Exports
            (prune x.ctx.store x.ctx.settings.subcollectionLimit (levels x.ctx.settings))
            (exportDocument x.ctx (levels x.ctx.settings) e
              (Relation.sanitize x.ctx.settings.collection) 0 x.ctx.settings.collection none)
            (Visit.root x.ctx.settings.collection e) :=
          fun e _ => exports_exportDocument hx (levels x.ctx.settings) (Nat.zero_add _)
        rw [← hsplit, List.map_append, pruneAll_append] at hready ⊢
        obtain ⟨s₁, hrun, hfirst⟩ := exists_runs_forIn hdocument hasked.has (fun _ _ => hr)
          fun w hw => hready w (List.mem_append_left _ hw)
        have hseen₁ := hfirst.seen
        change _ = _ ++ s.result.seen at hseen₁
        rw [← hseen₁] at hready ⊢
        have hlength : x.rootDocuments.length < offset + (d :: rest).length + batches := by
          rw [List.length_cons]
          omega
        obtain ⟨s₂, hruns, hrest⟩ := ih hlength hfirst.has ((hfirst.relations _).2 (.inl hr))
          fun w hw => hready w (List.mem_append_right _ hw)
        refine ⟨s₂, hbegin hsize ?_, hasked.trans (hfirst.trans hrest)⟩
        rw [hbatch]
        exact hrun.bind hruns

end BackendMigration.Export.Surroundings
