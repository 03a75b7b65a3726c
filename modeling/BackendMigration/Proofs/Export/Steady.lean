import BackendMigration.Proofs.Export.Step
import BackendMigration.Proofs.Export.Visit

/-! What holds throughout an export, whatever comes of its steps, and what is made of documents. -/
namespace BackendMigration.Export

/-- Where `I` holds, a step ends with a result of some kind where `J` holds, or with an error where `E`
holds. -/
def Step.Ensures {α : Type} (I J E : State → Prop) (Q : α → Prop) (m : Step α) : Prop :=
  ∀ s, I s → (∀ a t, Step.Runs m s a t → J t ∧ Q a) ∧ ∀ e t, m.run.run s = (.error e, t) → E t

/-- What holds before a step holds after it, whether it ends with a result or an error. -/
def Step.Keeps {α : Type} (I : State → Prop) (m : Step α) : Prop :=
  ∀ s, I s → I (m.run.run s).2

namespace Step

variable {α β : Type} {I J L E : State → Prop}

namespace Ensures

theorem pure {Q : α → Prop} {a : α} (h : Q a) : Ensures I I E Q (pure a) := by
  intro s hs
  constructor
  · intro b t hrun
    cases hrun
    exact ⟨hs, h⟩
  · intro e t hrun
    cases hrun

theorem bind {Q : α → Prop} {P : β → Prop} {m : Step α} {f : α → Step β} (hm : Ensures I J E Q m)
    (hf : ∀ a, Q a → Ensures J L E P (f a)) : Ensures I L E P (m >>= f) := by
  intro s hs
  obtain ⟨hok, herror⟩ := hm s hs
  rcases hrun : m.run.run s with ⟨e | a, u⟩
  · have hbind : (m >>= f).run.run s = (.error e, u) := by rw [run_bind, hrun]
    constructor
    · intro b t h
      rw [Runs, hbind] at h
      cases h
    · intro e' t h
      rw [hbind] at h
      cases h
      exact herror e u hrun
  · have hbind : (m >>= f).run.run s = (f a).run.run u := run_of_bind hrun
    obtain ⟨hu, ha⟩ := hok a u hrun
    unfold Runs
    rw [hbind]
    exact hf a ha u hu

theorem mono {Q P : α → Prop} {m : Step α} (h : Ensures I J E Q m) (hj : ∀ s, J s → L s)
    (hqp : ∀ a, Q a → P a) : Ensures I L E P m := by
  intro s hs
  obtain ⟨hok, herror⟩ := h s hs
  exact ⟨fun a t hrun => ⟨hj t (hok a t hrun).1, hqp a (hok a t hrun).2⟩, herror⟩

theorem mapM {Q : α → β → Prop} {f : α → Step β} {l : List α}
    (h : ∀ a ∈ l, Ensures I I E (Q a) (f a)) :
    Ensures I I E (fun bs => ∀ b ∈ bs, ∃ a ∈ l, Q a b) (l.mapM f) := by
  induction l with
  | nil => exact pure fun b hb => absurd hb List.not_mem_nil
  | cons a rest ih =>
    rw [List.mapM_cons]
    refine (h a List.mem_cons_self).bind fun b hb => ?_
    refine (ih fun c hc => h c (List.mem_cons_of_mem a hc)).bind fun bs hbs => pure fun b' hb' => ?_
    rcases List.mem_cons.1 hb' with rfl | hb'
    · exact ⟨a, List.mem_cons_self, hb⟩
    · obtain ⟨c, hc, hq⟩ := hbs b' hb'
      exact ⟨c, List.mem_cons_of_mem a hc, hq⟩

theorem forIn {Q : α → β → Prop} {f : α → Step β} {l : List α}
    (h : ∀ a ∈ l, Ensures I I E (Q a) (f a)) :
    Ensures I I E (fun _ => True) (forIn l PUnit.unit fun a _ => do
      let _ ← f a
      Pure.pure (ForInStep.yield PUnit.unit)) := by
  induction l with
  | nil => exact pure trivial
  | cons a rest ih =>
    rw [List.forIn_cons]
    have hfirst : Ensures I I E (fun r => r = ForInStep.yield PUnit.unit) (f a >>= fun _ =>
        Pure.pure (ForInStep.yield PUnit.unit)) := (h a List.mem_cons_self).bind fun _ _ => pure rfl
    refine hfirst.bind fun r hr => ?_
    rw [hr]
    exact ih fun b hb => h b (List.mem_cons_of_mem a hb)

end Ensures

namespace Keeps

theorem pure (a : α) : Keeps I (pure a) := fun _ h => h

theorem bind {m : Step α} {f : α → Step β} (hm : Keeps I m) (hf : ∀ a, Keeps I (f a)) :
    Keeps I (m >>= f) := by
  intro s hs
  rw [run_bind]
  have h := hm s hs
  split
  · rename_i a s' hrun
    rw [hrun] at h
    exact hf a s' h
  · rename_i e s' hrun
    rw [hrun] at h
    exact h

theorem tryCatch {m : Step α} {handle : Relation.WriteError → Step α} (hm : Keeps I m)
    (hh : ∀ e, Keeps I (handle e)) : Keeps I (tryCatch m handle) := by
  intro s hs
  rw [run_tryCatch]
  have h := hm s hs
  split
  · rename_i a s' hrun
    rw [hrun] at h
    exact h
  · rename_i e s' hrun
    rw [hrun] at h
    exact hh e s' h

theorem ensures {m : Step α} (h : Keeps I m) (hj : ∀ s, I s → E s) :
    Ensures I I E (fun _ => True) m := by
  intro s hs
  have ht := h s hs
  constructor
  · intro a t hrun
    rw [show m.run.run s = (.ok a, t) from hrun] at ht
    exact ⟨ht, trivial⟩
  · intro e t hrun
    rw [hrun] at ht
    exact hj t ht

end Keeps

/-- What holds at the end whether a step ends with a result or an error. -/
theorem Ensures.end_of {Q : α → Prop} {m : Step α} (h : Ensures I J E Q m) (hj : ∀ s, J s → E s)
    {s : State} (hs : I s) : E (m.run.run s).2 := by
  obtain ⟨hok, herror⟩ := h s hs
  rcases hrun : m.run.run s with ⟨e | a, t⟩
  · exact herror e t hrun
  · exact hj t (hok a t hrun).1

end Step

variable {ctx : Context} {I : List String → State → Prop} {E : State → Prop}
  {R : Visit → Document.Entries → Prop} {v : Visit}

/-- The records of documents of some of the collections nested in a document. -/
def Groups (ctx : Context) (R : Visit → Document.Entries → Prop) (v : Visit) (names : List String)
    (entries : Document.Entries) : Prop :=
  ∃ groups : List (String × List Document.Entries),
    entries = groups.map (fun g => (.text g.1, .list (g.2.map .map))) ∧
    (groups.map (·.1)).Sublist names ∧
    ∀ g ∈ groups, ∀ record ∈ g.2,
      ∃ d ∈ ctx.store.documents (v.path ++ "/" ++ g.1), R (v.child g.1 d) record

theorem groups_nil (names : List String) : Groups ctx R v names [] :=
  ⟨[], rfl, List.nil_sublist names, fun _ hg => absurd hg List.not_mem_nil⟩

/-- What every elementary step of an export ensures, where some relations are known and the records made
of documents are of some kind. -/
structure Sustained (ctx : Context) (I : List String → State → Prop) (E : State → Prop)
    (R : Visit → Document.Entries → Prop) : Prop where
  forget : ∀ r known s, I (r :: known) s → I known s
  asked : ∀ known, Step.Ensures (I known) (I known) E (fun _ => True) isCancelled
  cancelled : ∀ known, Step.Ensures (I known) (I known) E (fun _ => True)
    (updateResult fun r => { r with cancelled := true })
  requested : ∀ known request,
    Step.Ensures (I known) (I known) E (fun _ => True) (logRequest request)
  noted : ∀ known message path,
    Step.Ensures (I known) (I known) E (fun _ => True) (noteError ctx message path)
  opened : ∀ known (v : Visit) (name : String),
    Step.Ensures (I known) (I (nestedRelation v.relation name :: known)) E (fun _ => True)
      (updateResult fun r =>
        r.ensure (nestedRelation v.relation name) (v.depth + 1) (some v.relation))
  bare : ∀ v : Visit, v.document ∈ ctx.store.documents v.collectionPath → R v v.record
  nested : ∀ (v : Visit) (names : List String) (entries : Document.Entries),
    v.document ∈ ctx.store.documents v.collectionPath → ctx.settings.mode = .nest → names.Nodup →
    Groups ctx R v names entries → R v (v.record.set subcollectionsField (.map entries))
  written : ∀ known (v : Visit) (record : Document.Entries),
    v.document ∈ ctx.store.documents v.collectionPath → v.relation ∈ known → R v record →
    Step.Ensures (I known) (I known) E (fun _ => True) (writeRecord ctx v.relation record
      (documentKey ctx v.relation v.collectionPath v.document) v.depth)

/-- What every elementary step of an export keeps. -/
structure Steady (ctx : Context) (I : State → Prop) : Prop where
  asked : Step.Keeps I isCancelled
  cancelled : Step.Keeps I (updateResult fun r => { r with cancelled := true })
  requested : ∀ request, Step.Keeps I (logRequest request)
  noted : ∀ message path, Step.Keeps I (noteError ctx message path)
  opened : ∀ (v : Visit) (name : String), Step.Keeps I
    (updateResult fun r => r.ensure (nestedRelation v.relation name) (v.depth + 1) (some v.relation))
  written : ∀ (v : Visit) (record : Document.Entries),
    v.document ∈ ctx.store.documents v.collectionPath → Relation.sanitize v.relation = v.relation →
    (ctx.settings.mode = .flatten → record = v.record) →
    Step.Keeps I (writeRecord ctx v.relation record
      (documentKey ctx v.relation v.collectionPath v.document) v.depth)

theorem Steady.mem_of_fetch {store : Store} {path : String} {limit offset : Nat}
    {ds : List StoredDocument} (h : store.fetch path limit offset = .ok ds) {d : StoredDocument}
    (hd : d ∈ ds) : d ∈ store.documents path := by
  unfold Store.fetch at h
  split at h
  · cases h
  · cases h
    exact List.mem_of_mem_drop (List.mem_of_mem_take hd)

theorem Steady.sanitize_nestedRelation (relation name : String) :
    Relation.sanitize (nestedRelation relation name) = nestedRelation relation name :=
  Relation.sanitize_sanitize _

namespace Sustained

open Steady (mem_of_fetch)

/-- A document is written to its relation in its own right. -/
def IsWritten (ctx : Context) (v : Visit) : Prop := v.depth = 0 ∨ ctx.settings.mode = .flatten

/-- A step for each nested document that makes a record of it, where relations that are written to are
known. -/
def Visits (ctx : Context) (I : List String → State → Prop) (E : State → Prop)
    (R : Visit → Document.Entries → Prop) (v : Visit)
    (visit : StoredDocument → String → String → Linkage → Step Document.Entries) : Prop :=
  ∀ known name, (ctx.settings.mode = .flatten → nestedRelation v.relation name ∈ known) →
    ∀ d ∈ ctx.store.documents (v.path ++ "/" ++ name),
      Step.Ensures (I known) (I known) E (R (v.child name d))
        (visit d (nestedRelation v.relation name) (v.path ++ "/" ++ name)
          ⟨v.relation, v.document.id, v.path ++ "/" ++ name⟩)

theorem walkCollections (h : Sustained ctx I E R)
    {visit : StoredDocument → String → String → Linkage → Step Document.Entries}
    (hvisit : Visits ctx I E R v visit) (known names : List String) :
    Step.Ensures (I known) (I known) E (Groups ctx R v names)
      (Export.walkCollections ctx visit v.document v.relation v.depth v.path names) := by
  induction names with
  | nil => exact .pure (groups_nil [])
  | cons name rest ih =>
    have hskip : ∀ entries, Groups ctx R v rest entries → Groups ctx R v (name :: rest) entries := by
      rintro entries ⟨groups, he, hnames, hall⟩
      exact ⟨groups, he, hnames.cons name, hall⟩
    unfold Export.walkCollections
    refine (h.asked known).bind fun cancelled _ => ?_
    cases cancelled with
    | true => exact (h.cancelled known).bind fun _ _ => .pure (groups_nil _)
    | false =>
      refine (h.requested known _).bind fun _ _ => ?_
      dsimp only
      split
      · exact (h.noted known _ _).bind fun _ _ => ih.mono (fun _ hs => hs) hskip
      · rename_i children hfetch
        have hgroup : ∀ records : List Document.Entries,
            (∀ record ∈ records, ∃ d ∈ children, R (v.child name d) record) →
            Step.Ensures (I known) (I known) E (Groups ctx R v (name :: rest)) (do
              let nested ← Export.walkCollections ctx visit v.document v.relation v.depth v.path rest
              return (.text name, .list (records.map .map)) :: nested) := by
          intro records hrecords
          refine ih.bind fun nested ⟨groups, he, hnames, hall⟩ => .pure ?_
          refine ⟨(name, records) :: groups, by rw [he]; rfl, hnames.cons_cons name, ?_⟩
          intro g hg record hrecord
          rcases List.mem_cons.1 hg with rfl | hg
          · obtain ⟨d, hd, hr⟩ := hrecords record hrecord
            exact ⟨d, mem_of_fetch hfetch hd, hr⟩
          · exact hall g hg record hrecord
        split
        · refine (h.opened known v name).bind fun _ _ => ?_
          have hchildren := Step.Ensures.mapM fun child (hchild : child ∈ children) =>
            hvisit (nestedRelation v.relation name :: known) name (fun _ => List.mem_cons_self) child
              (mem_of_fetch hfetch hchild)
          -- The new relation is known to the children only, so that the others are as before.
          exact (hchildren.mono (h.forget _ known) fun _ hr => hr).bind hgroup
        · rename_i hmode
          have hchildren := Step.Ensures.mapM fun child (hchild : child ∈ children) =>
            hvisit known name (fun hflatten => absurd hflatten hmode) child (mem_of_fetch hfetch hchild)
          exact hchildren.bind hgroup

theorem walkDocument (h : Sustained ctx I E R)
    {visit : StoredDocument → String → String → Linkage → Step Document.Entries}
    (hvisit : Visits ctx I E R v visit) (known : List String) :
    Step.Ensures (I known) (I known) E
      (fun nested => ∃ names entries, nested = .map entries ∧ names.Nodup ∧
        Groups ctx R v names entries)
      (Export.walkDocument ctx visit v.document v.relation v.depth v.collectionPath) := by
  unfold Export.walkDocument
  refine (h.requested known _).bind fun _ _ => ?_
  split
  · exact (h.noted known _ _).bind fun _ _ => .pure ⟨[], [], rfl, List.nodup_nil, groups_nil []⟩
  · rename_i names hlisted
    have hnames := Store.nodup_nestedCollections hlisted
    exact (h.walkCollections hvisit known names).bind fun entries hentries =>
      .pure ⟨names, entries, rfl, hnames, hentries⟩

theorem exportDocument (h : Sustained ctx I E R) (n : Nat) (known : List String) {v : Visit}
    (hv : v.document ∈ ctx.store.documents v.collectionPath)
    (hr : IsWritten ctx v → v.relation ∈ known) : Step.Ensures (I known) (I known) E (R v)
      (Export.exportDocument ctx n v.document v.relation v.depth v.collectionPath v.linkage) := by
  have hbare := h.bare v hv
  induction n generalizing v known with
  | zero =>
    unfold Export.exportDocument
    dsimp only
    split
    · rename_i hwritten
      exact (h.written known v _ hv (hr hwritten) hbare).bind fun _ _ => .pure hbare
    · exact .pure hbare
  | succ n ih =>
    have hvisit : Visits ctx I E R v fun child relation path l =>
        Export.exportDocument ctx n child relation (v.depth + 1) path (some l) := by
      intro known name hknown d hd
      -- What is nested is never at the top: it is written in flatten mode only.
      have hwritten : IsWritten ctx (v.child name d) → nestedRelation v.relation name ∈ known :=
        fun hw => hknown (hw.resolve_left (Nat.succ_ne_zero v.depth))
      exact @ih known (v.child name d) hd hwritten (h.bare _ hd)
    have hwalk := h.walkDocument hvisit known
    unfold Export.exportDocument
    dsimp only
    split
    · rename_i hnest
      refine hwalk.bind fun nested ⟨names, entries, he, hnames, hentries⟩ => ?_
      subst he
      have hrecord := h.nested v names entries hv hnest hnames hentries
      split
      · rename_i hdepth
        exact (h.written known v _ hv (hr (.inl hdepth)) hrecord).bind fun _ _ => .pure hrecord
      · exact .pure hrecord
    · rename_i hflatten
      refine (h.written known v _ hv (hr (.inr hflatten)) hbare).bind fun written _ => ?_
      split
      · exact hwalk.bind fun _ _ => .pure hbare
      · exact .pure hbare

theorem exportBatches (h : Sustained ctx I E R) {known : List String}
    (hroot : Relation.sanitize ctx.settings.collection ∈ known) (batches offset : Nat) :
    Step.Ensures (I known) (I known) E (fun _ => True)
      (Export.exportBatches ctx (Relation.sanitize ctx.settings.collection) batches offset) := by
  induction batches generalizing offset with
  | zero => exact .pure trivial
  | succ batches ih =>
    unfold Export.exportBatches
    refine (h.asked known).bind fun cancelled _ => ?_
    cases cancelled with
    | true => exact (h.cancelled known).bind fun _ _ => .pure trivial
    | false =>
      dsimp only
      rw [if_neg Bool.false_ne_true]
      generalize (if ctx.settings.limit = 0 then ctx.settings.batchSize
        else min ctx.settings.batchSize (ctx.settings.limit - offset)) = size
      split
      · exact .pure trivial
      · refine (h.requested known _).bind fun _ _ => ?_
        split
        · exact h.noted known _ _
        · exact .pure trivial
        · rename_i batch _ hfetch
          have hdocuments := Step.Ensures.forIn fun d (hd : d ∈ batch) =>
            h.exportDocument (levels ctx.settings) known (v := Visit.root ctx.settings.collection d)
              (mem_of_fetch hfetch hd) fun _ => hroot
          exact hdocuments.bind fun _ _ => ih _

/-- What every elementary step ensures is ensured at the end. -/
theorem exportCollection (h : Sustained ctx I E R) : Step.Ensures
    (I [Relation.sanitize ctx.settings.collection]) (I [Relation.sanitize ctx.settings.collection]) E
    (fun _ => True) (Export.exportCollection ctx (Relation.sanitize ctx.settings.collection)) :=
  h.exportBatches List.mem_cons_self _ 0

end Sustained

/-- Something holds and the names of the known relations are sanitized. -/
def WithSanitized (I : State → Prop) (known : List String) (s : State) : Prop :=
  (∀ r ∈ known, Relation.sanitize r = r) ∧ I s

section WithSanitized

variable {I : State → Prop} {known : List String}

theorem WithSanitized.forget {r : String} {s : State} (h : WithSanitized I (r :: known) s) :
    WithSanitized I known s :=
  ⟨fun r' hr => h.1 r' (List.mem_cons_of_mem r hr), h.2⟩

/-- What a step keeps it ensures, whatever relations are known. -/
theorem Step.Keeps.withSanitized {α : Type} {m : Step α} (known : List String) (hm : Step.Keeps I m) :
    Step.Ensures (WithSanitized I known) (WithSanitized I known) I (fun _ => True) m := by
  have hboth : Step.Keeps (WithSanitized I known) m := fun s hs => ⟨hs.1, hm s hs.2⟩
  exact hboth.ensures fun _ hs => hs.2

/-- A nested relation gets known by a sanitized name. -/
theorem Step.Keeps.opens {m : Step Unit} (known : List String) (hm : Step.Keeps I m)
    (relation name : String) :
    Step.Ensures (WithSanitized I known) (WithSanitized I (nestedRelation relation name :: known)) I
      (fun _ => True) m := by
  refine (hm.withSanitized known).mono (fun s hs => ⟨?_, hs.2⟩) fun _ ha => ha
  exact List.forall_mem_cons.2 ⟨Steady.sanitize_nestedRelation relation name, hs.1⟩

end WithSanitized

/-- What every elementary step ensures along with sanitized names holds at the end. -/
theorem Sustained.keeps {I : State → Prop} (h : Sustained ctx (WithSanitized I) I R) : Step.Keeps I
    (Export.exportCollection ctx (Relation.sanitize ctx.settings.collection)) := by
  intro s hs
  have hroot : ∀ r ∈ [Relation.sanitize ctx.settings.collection], Relation.sanitize r = r :=
    List.forall_mem_singleton.2 (Relation.sanitize_sanitize _)
  exact h.exportCollection.end_of (fun _ ht => ht.2) ⟨hroot, hs⟩

/-- With what every elementary step keeps, the names of the known relations stay sanitized. -/
theorem Steady.sustained {I : State → Prop} (h : Steady ctx I) :
    Sustained ctx (WithSanitized I) I fun v record => ctx.settings.mode = .flatten → record = v.record where
  forget := fun _ _ _ hs => hs.forget
  asked := fun known => h.asked.withSanitized known
  cancelled := fun known => h.cancelled.withSanitized known
  requested := fun known request => (h.requested request).withSanitized known
  noted := fun known message path => (h.noted message path).withSanitized known
  opened := fun known v name => (h.opened v name).opens known v.relation name
  bare := fun _ _ _ => rfl
  nested := by
    intro v names entries _ hnest _ _ hflatten
    rw [hnest] at hflatten
    cases hflatten
  written := by
    intro known v record hv hr hrecord s hs
    exact (h.written v record hv (hs.1 _ hr) hrecord).withSanitized known s hs

theorem Steady.exportCollection {I : State → Prop} (h : Steady ctx I) : Step.Keeps I
    (Export.exportCollection ctx (Relation.sanitize ctx.settings.collection)) :=
  h.sustained.keeps

end BackendMigration.Export
