import BackendMigration.Proofs.Export.Steady

/-! What the elementary steps of an export have in common, its whole walk has. -/
namespace BackendMigration.Export

open BackendMigration.Relation (sanitize sanitize_sanitize)

/-- A property of steps that the elementary steps of an export have, and of which steps that are made of
others inherit it. -/
structure Step.Inherited (P : ∀ α : Type, Step α → Prop) : Prop where
  pure : ∀ {α : Type} (a : α), P α (pure a)
  bind : ∀ {α β : Type} {m : Step α} {f : α → Step β}, P α m → (∀ a, P β (f a)) → P β (m >>= f)
  tryCatch : ∀ {α : Type} {m : Step α} {handle : Relation.WriteError → Step α},
    P α m → (∀ e, P α (handle e)) → P α (tryCatch m handle)
  asked : P Bool isCancelled
  updated : ∀ f, P Unit (updateResult f)
  requested : ∀ request, P Unit (logRequest request)
  met : ∀ relation key, P Bool (meet relation key)
  stored : ∀ relation depth value, sanitize relation = relation →
    P Unit (storeRecord relation depth value)

namespace Step.Inherited

variable {P : ∀ α : Type, Step α → Prop} {ctx : Context} {relation : String}

theorem mapM (h : Inherited P) {α β : Type} {f : α → Step β} (hf : ∀ a, P β (f a)) (l : List α) :
    P (List β) (l.mapM f) := by
  induction l with
  | nil => exact h.pure []
  | cons a rest ih =>
    rw [List.mapM_cons]
    exact h.bind (hf a) fun _ => h.bind ih fun _ => h.pure _

theorem forIn (h : Inherited P) {α β : Type} {f : α → Step β} (hf : ∀ a, P β (f a)) (l : List α) :
    P PUnit (forIn l PUnit.unit fun a _ => do
      let _ ← f a
      Pure.pure (ForInStep.yield PUnit.unit)) := by
  induction l with
  | nil => exact h.pure _
  | cons a rest ih =>
    rw [List.forIn_cons]
    refine h.bind (h.bind (hf a) fun _ => h.pure _) fun next => ?_
    cases next with
    | done => exact h.pure _
    | yield => exact ih

theorem noteError (h : Inherited P) (message path : String) :
    P Unit (noteError ctx message path) :=
  h.updated _

/-! Writing a record. -/

theorem emitAll (h : Inherited P) (emissions : List (String × Document.Value)) :
    P (Except Relation.WriteError Unit) (emitAll emissions) := by
  induction emissions with
  | nil => exact h.pure _
  | cons a rest ih =>
    have hemit : P Unit (emit a.1 a.2) := h.stored _ 0 a.2 (sanitize_sanitize a.1)
    unfold Export.emitAll
    refine h.bind (h.tryCatch (h.bind hemit fun _ => h.pure _) fun _ => h.pure _) fun outcome => ?_
    cases outcome with
    | ok => exact ih
    | error e => exact h.pure _

theorem applyHook (h : Inherited P) (record : Document.Entries) :
    P HookOutcome (applyHook ctx relation record) := by
  unfold Export.applyHook
  split
  · exact h.pure _
  · dsimp only
    refine h.bind (h.emitAll _) fun outcome => ?_
    cases outcome with
    | ok => exact h.pure _
    | error e => exact h.pure _

theorem writeRecord (h : Inherited P) (hr : sanitize relation = relation) (record : Document.Entries)
    (key : String) (depth : Nat) : P Bool (writeRecord ctx relation record key depth) := by
  rw [Step.writeRecord_eq]
  refine h.bind (h.met relation key) fun isNew => ?_
  cases isNew with
  | false => exact h.bind (h.updated _) fun _ => h.pure _
  | true =>
    refine h.bind (h.applyHook record) fun outcome => ?_
    cases outcome with
    | fail message => exact h.bind (h.noteError _ key) fun _ => h.pure _
    | drop => exact h.bind (h.updated _) fun _ => h.pure _
    | keep value => exact h.bind (h.stored relation depth value hr) fun _ => h.pure _

/-! Walking the collections. -/

theorem walkCollections (h : Inherited P)
    {visit : StoredDocument → String → String → Linkage → Step Document.Entries}
    (hvisit : ∀ d relation path l, sanitize relation = relation →
      P Document.Entries (visit d relation path l))
    (doc : StoredDocument) (relation : String) (depth : Nat) (path : String) (names : List String) :
    P Document.Entries (walkCollections ctx visit doc relation depth path names) := by
  induction names with
  | nil => exact h.pure []
  | cons name rest ih =>
    have hrelation := Steady.sanitize_nestedRelation relation name
    have hrecords (children : List StoredDocument) :
        P Document.Entries (do
          let records ← children.mapM fun child =>
            visit child (nestedRelation relation name) (path ++ "/" ++ name)
              ⟨relation, doc.id, path ++ "/" ++ name⟩
          let nested ← Export.walkCollections ctx visit doc relation depth path rest
          Pure.pure ((.text name, .list (records.map .map)) :: nested)) :=
      h.bind (h.mapM (fun child => hvisit child _ _ _ hrelation) children) fun _ =>
        h.bind ih fun _ => h.pure _
    unfold Export.walkCollections
    refine h.bind h.asked fun cancelled => ?_
    cases cancelled with
    | true => exact h.bind (h.updated _) fun _ => h.pure _
    | false =>
      refine h.bind (h.requested _) fun _ => ?_
      dsimp only
      split
      · exact h.bind (h.noteError _ _) fun _ => ih
      · rename_i children hfetch
        split
        · exact h.bind (h.updated _) fun _ => hrecords children
        · exact hrecords children

theorem walkDocument (h : Inherited P)
    {visit : StoredDocument → String → String → Linkage → Step Document.Entries}
    (hvisit : ∀ d relation path l, sanitize relation = relation →
      P Document.Entries (visit d relation path l))
    (doc : StoredDocument) (relation : String) (depth : Nat) (path : String) :
    P Document.Value (walkDocument ctx visit doc relation depth path) := by
  unfold Export.walkDocument
  refine h.bind (h.requested _) fun _ => ?_
  split
  · exact h.bind (h.noteError _ _) fun _ => h.pure _
  · exact h.bind (h.walkCollections hvisit doc relation depth _ _) fun _ => h.pure _

theorem exportDocument (h : Inherited P) (ctx : Context) (n : Nat) (doc : StoredDocument)
    (hr : sanitize relation = relation) (depth : Nat) (path : String) (linkage : Option Linkage) :
    P Document.Entries (exportDocument ctx n doc relation depth path linkage) := by
  induction n generalizing doc relation depth path linkage with
  | zero =>
    unfold Export.exportDocument
    dsimp only
    split
    · exact h.bind (h.writeRecord hr _ _ depth) fun _ => h.pure _
    · exact h.pure _
  | succ n ih =>
    have hwalk : P Document.Value (Export.walkDocument ctx (fun child childRelation childPath l =>
        Export.exportDocument ctx n child childRelation (depth + 1) childPath (some l))
        doc relation depth path) :=
      h.walkDocument (fun child childRelation childPath l hchild =>
        ih child hchild (depth + 1) childPath (some l)) doc relation depth path
    unfold Export.exportDocument
    dsimp only
    split
    · refine h.bind hwalk fun nested => ?_
      split
      · exact h.bind (h.writeRecord hr _ _ depth) fun _ => h.pure _
      · exact h.pure _
    · refine h.bind (h.writeRecord hr _ _ depth) fun written => ?_
      split
      · exact h.bind hwalk fun _ => h.pure _
      · exact h.pure _

theorem exportBatches (h : Inherited P) (hr : sanitize relation = relation) (batches offset : Nat) :
    P Unit (exportBatches ctx relation batches offset) := by
  induction batches generalizing offset with
  | zero => exact h.pure ()
  | succ batches ih =>
    unfold Export.exportBatches
    refine h.bind h.asked fun cancelled => ?_
    cases cancelled with
    | true => exact h.bind (h.updated _) fun _ => h.pure ()
    | false =>
      dsimp only
      rw [if_neg Bool.false_ne_true]
      generalize (if ctx.settings.limit = 0 then ctx.settings.batchSize
        else min ctx.settings.batchSize (ctx.settings.limit - offset)) = size
      split
      · exact h.pure ()
      · refine h.bind (h.requested _) fun _ => ?_
        split
        · exact h.noteError _ _
        · exact h.pure ()
        · rename_i batch _ _
          have hdocuments := h.forIn (fun d =>
            h.exportDocument ctx (levels ctx.settings) d hr 0 ctx.settings.collection none) batch
          exact h.bind hdocuments fun _ => ih _

/-- What every elementary step has, the walk of an export has. -/
theorem exportCollection (h : Inherited P) (ctx : Context) : P Unit
    (exportCollection ctx (sanitize ctx.settings.collection)) :=
  h.exportBatches (sanitize_sanitize _) _ 0

end Step.Inherited
end BackendMigration.Export
