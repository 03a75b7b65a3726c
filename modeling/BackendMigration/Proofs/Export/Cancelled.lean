import BackendMigration.Proofs.Export.Order
import BackendMigration.Proofs.Export.Parting

/-! A cancelled export: it has done some of what it would have done otherwise, and nothing else. -/
namespace BackendMigration.Export

open Step (Alike Fetches Trails Leads Departs Cut)
open Traced (Tells Shaped TellsBelow noteStop noteFetch noteListing notePage pageSize)

section

variable {ctx : Context} {session : Session} {v : Visit}

/-! Steps that do not ask whether to stop. -/

theorem synced_noteFetch (v : Visit) (name : String) :
    Alike (Synced session) Eq Eq (noteFetch ctx v name) (noteFetch ctx v name) := by
  refine Synced.alike (fun s c => ?_) (keeps_of_tells (Traced.tells_noteFetch v name))
  unfold noteFetch
  dsimp only
  cases ctx.store.fetch (v.path ++ "/" ++ name) ctx.settings.subcollectionLimit 0 with
  | error message => rfl
  | ok children =>
    dsimp only
    split <;> rfl

theorem synced_noteListing (v : Visit) :
    Alike (Synced session) Eq Eq (noteListing ctx v) (noteListing ctx v) := by
  refine Synced.alike (fun s c => ?_) (keeps_of_tells (Traced.tells_noteListing v))
  unfold noteListing
  cases ctx.store.nestedCollections v.path <;> rfl

theorem synced_notePage (offset : Nat) :
    Alike (Synced session) Eq Eq (notePage ctx offset) (notePage ctx offset) := by
  refine Synced.alike (fun s c => ?_) (keeps_of_tells (Traced.tells_notePage offset))
  unfold notePage
  dsimp only
  cases ctx.store.fetch ctx.settings.collection (pageSize ctx.settings offset) offset <;> rfl

/-! The walk. -/

/-- The walk below a document has nothing to do with the documents of its relation. -/
theorem leads_of_tells {α : Type} {T : Traced α} {m : Step α} {part : Part}
    (h : Tells ctx T m (Shaped ctx part)) {n : Nat}
    (hpart : part.IsIn (fun w => n ≤ w.relation.length) fun w => n ≤ w.relation.length + 1) :
    Leads session n m :=
  .of_tells h fun _ _ hshape => (Scope.longer n).forall_mem hshape hpart

section

variable {levels : Nat} {visit : Visit → Traced Document.Entries}
  {step : StoredDocument → String → String → Linkage → Step Document.Entries}

/-- Steps that export the documents nested in a document can be cut off. -/
def CutBelow (session : Session) (v : Visit)
    (step : StoredDocument → String → String → Linkage → Step Document.Entries) : Prop :=
  ∀ name d, Cut session ((nestedRelation v.relation name).length + 1)
    (step d (nestedRelation v.relation name) (v.path ++ "/" ++ name)
      ⟨v.relation, v.document.id, v.path ++ "/" ++ name⟩)

theorem departs_walkCollections (htells : TellsBelow ctx levels v visit step)
    (hcut : CutBelow session v step) (names : List String) :
    Departs session (v.relation.length + 1)
      (walkCollections ctx step v.document v.relation v.depth v.path names) := by
  induction names with
  | nil => exact .pure []
  | cons name rest ih =>
    have hwhole := Traced.tells_walkCollections htells (name :: rest)
    have hrest := Traced.tells_walkCollections htells rest
    have htrails : Trails session (v.relation.length + 1) _ _ :=
      .of_lags (leads_of_tells hrest (le_refl _)) (.of_tells hrest trivial)
    have hlonger : v.relation.length + 1 ≤ (nestedRelation v.relation name).length + 1 := by
      rw [nestedRelation, Relation.length_sanitize, String.length_append, String.length_append]
      omega
    rw [Traced.walkCollections_cons] at hwhole ⊢
    refine .asked (.of_tells hwhole) (leads_of_tells hwhole (le_refl _)) ?_
    refine Departs.of_synced (synced_noteFetch v name) fun _ => ?_
    cases ctx.store.fetch (v.path ++ "/" ++ name) ctx.settings.subcollectionLimit 0 with
    | error message => exact ih
    | ok children =>
      -- The children's relation has a longer name, so what they need in step includes what is needed here.
      have hchildren := (Cut.mapM (hcut name) children).departs.mono hlonger
      refine hchildren.bind (fun _ => ?_) (fun _ => ?_) fun _ _ => ?_
      · exact ih.bind (fun _ => .pure _) (fun _ => .pure _) fun _ _ => .pure _ _
      · exact (Fetches.of_tells hrest).bind fun _ => .pure _
      · exact htrails.bind fun _ _ => .pure _ _

theorem departs_walkDocument (htells : TellsBelow ctx levels v visit step)
    (hcut : CutBelow session v step) :
    Departs session (v.relation.length + 1)
      (walkDocument ctx step v.document v.relation v.depth v.collectionPath) := by
  rw [Traced.walkDocument_eq]
  refine Departs.of_synced (synced_noteListing v) fun _ => ?_
  cases ctx.store.nestedCollections v.path with
  | error message => exact .pure _
  | ok names =>
    exact (departs_walkCollections htells hcut names).bind (fun _ => .pure _) (fun _ => .pure _)
      fun _ _ => .pure _ _

end

/-- A document that was fetched is exported although the export was told to stop since. -/
theorem cut_exportDocument (session : Session) (hmode : ctx.settings.mode = .flatten) (levels : Nat)
    {v : Visit} (hv : Relation.sanitize v.relation = v.relation) :
    Cut session (v.relation.length + 1)
      (exportDocument ctx levels v.document v.relation v.depth v.collectionPath v.linkage) := by
  induction levels generalizing v with
  | zero =>
    have htells := Traced.tells_exportDocument ctx 0 hv
    unfold exportDocument at htells ⊢
    dsimp only at htells ⊢
    rw [if_pos (.inr hmode)] at htells ⊢
    refine ⟨.of_tells htells, ?_, ?_⟩
    · exact .of_alike (Behind.alike_writeRecord hv _ _ _) fun _ => .pure _ _
    · exact .of_synced (synced_writeRecord hv _ _ _) fun _ => .pure _
  | succ levels ih =>
    have htells := Traced.tells_exportDocument ctx (levels + 1) hv
    have hbelow := Traced.tellsBelow_exportDocument ctx levels v
    have hwalk := Traced.tells_walkDocument hbelow
    have hcut : CutBelow session v fun child relation path l =>
        exportDocument ctx levels child relation (v.depth + 1) path (some l) :=
      fun name d => ih (v := v.child name d) (Steady.sanitize_nestedRelation v.relation name)
    unfold exportDocument at htells ⊢
    dsimp only at htells ⊢
    rw [hmode] at htells ⊢
    -- Both runs write the record or neither does. What is nested in the document is behind in one of them,
    -- but it goes to relations with longer names and makes no difference to the documents after this one.
    refine ⟨.of_tells htells, .of_alike (Behind.alike_writeRecord hv _ _ _) fun isWritten => ?_,
      .of_synced (synced_writeRecord hv _ _ _) fun isWritten => ?_⟩
    · cases isWritten with
      | false => exact .pure _ _
      | true =>
        have htrails : Trails session (v.relation.length + 1) _ _ :=
          .of_lags (leads_of_tells hwalk (le_refl _)) (.of_tells hwalk trivial)
        exact htrails.bind fun _ _ => .pure _ _
    · cases isWritten with
      | false => exact .pure _
      | true =>
        exact (departs_walkDocument hbelow hcut).bind (fun _ => .pure _) (fun _ => .pure _)
          fun _ _ => .pure _ _

/-! The whole export. -/

theorem departs_exportBatches (session : Session) (hmode : ctx.settings.mode = .flatten)
    (batches offset : Nat) :
    Departs session 0
      (exportBatches ctx (Relation.sanitize ctx.settings.collection) batches offset) := by
  induction batches generalizing offset with
  | zero => exact .pure ()
  | succ batches ih =>
    have hwhole := @Traced.tells_exportBatches ctx (batches + 1) offset
    rw [Traced.exportBatches_succ] at hwhole ⊢
    refine .asked (.of_tells hwhole) (.of_tells hwhole fun _ _ _ _ _ _ _ _ => Nat.zero_le _) ?_
    by_cases hsize : pageSize ctx.settings offset = 0
    · rw [if_pos hsize]
      exact .pure ()
    · rw [if_neg hsize]
      refine .of_synced (synced_notePage offset) fun _ => ?_
      rcases ctx.store.fetch ctx.settings.collection (pageSize ctx.settings offset) offset with
        message | ⟨_ | ⟨d, rest⟩⟩
      · exact .pure ()
      · exact .pure ()
      · have hothers := @Traced.tells_exportBatches ctx batches (offset + (d :: rest).length)
        have hdocument (d : StoredDocument) :
            Cut session ((Relation.sanitize ctx.settings.collection).length + 1)
              (exportDocument ctx (levels ctx.settings) d (Relation.sanitize ctx.settings.collection) 0
                ctx.settings.collection none) :=
          cut_exportDocument session hmode (levels ctx.settings)
            (v := .root ctx.settings.collection d) (Relation.sanitize_sanitize _)
        refine ((Cut.forIn hdocument (d :: rest)).departs.mono (Nat.zero_le _)).bind (fun _ => ih _)
          (fun _ => .of_tells hothers) fun _ _ => ?_
        have hleads : Leads session 0 _ := .of_tells hothers fun _ _ _ _ _ _ _ _ => Nat.zero_le _
        exact .of_lags hleads (.of_tells hothers trivial)

variable {e : Exporter} {order : Order} {settings : Settings} {period : Time.Period}

/-- After an export was told to stop, it fetches nothing. -/
theorem Exporter.not_fetched_of_stopped {before after : List Event}
    (h : e.trace settings period session = before ++ .asked true :: after)
    (above : Option Visit) (path : String) (limit offset : Nat) :
    .fetched above path limit offset ∉ after := by
  obtain ⟨-, hacts, -⟩ := e.run_traced settings period session
  have hgoes : .asked false ∉ after := by
    rw [h] at hacts
    obtain ⟨s, -, hrest⟩ := hacts.split
    cases hrest with
    | cons first others =>
      cases first with
      | stops hask =>
        have hstopped := (Cancellation.ask_again hask).trans (Cancellation.eq_of_ask hask)
        exact (others.stopped hstopped).1
  intro hmem
  obtain ⟨since, later, rfl⟩ := List.append_of_mem hmem
  -- A fetch comes right after the export was told to go on, which was after it was told to stop.
  have hlast : (before ++ .asked true :: since).getLast? = some (.asked false) := by
    have hsplit : e.trace settings period session =
        (before ++ .asked true :: since) ++ .fetched above path limit offset :: later := by
      rw [h, List.append_assoc]
      rfl
    cases e.follows_trace settings period session hsplit with
    | page hasked | fetched hasked => exact hasked
    | addition h => cases h
  rw [List.getLast?_append_of_ne_nil _ (List.cons_ne_nil _ _)] at hlast
  have hlater := (List.mem_cons.1 (List.mem_of_getLast? hlast)).resolve_left (by simp)
  exact hgoes (List.mem_append_left _ hlater)

/-- What an export writes can be told from its last state. -/
theorem Accounts.map_readBack {attempts : List (String × Document.Value)}
    (h : Accounts session attempts (e.walked settings period session)) (r : String) :
    (writesTo r (e.trace settings period session)).map Relation.readBack =
      ((Relation.Log.run session.writer session.files attempts).writtenTo r).map Relation.readBack := by
  obtain ⟨-, hacts, -⟩ := e.run_traced settings period session
  obtain ⟨told, htold, hwritten⟩ := hacts.accounts (accounts_initial settings period session)
  change _ = [] ++ _ at hwritten
  rw [List.nil_append] at hwritten
  rw [writesTo, ← hwritten]
  exact Relation.Log.map_readBack_writtenTo_eq h.attempted htold.attempted
    (htold.writer.symm.trans h.writer) (htold.files.symm.trans h.files) r

section

variable {full : Session} {c : Cancellation}

theorem Covers.sublist_written (h : Covers full (e.walked settings period full)
      (e.walked settings period { full with cancellation := c })) (r : String) :
    ((writesTo r (e.trace settings period { full with cancellation := c })).map
      Relation.readBack).Sublist
        ((writesTo r (e.trace settings period full)).map Relation.readBack) := by
  obtain ⟨attempts, attempts', hfull, hcut, hsub⟩ := h.accounts
  rw [hfull.map_readBack, (hcut.with_cancellation c).map_readBack]
  exact ((hsub.filter _).map _).map _

/-- Where a walk covers another one and its files can be closed, those of the other one can be closed
too. -/
theorem Covers.exists_result (h : Covers full (e.walked settings period full)
      (e.walked settings period { full with cancellation := c }))
    (ho : order.settings = .ok settings)
    (hthrough : e.IsThrough settings period { full with cancellation := c }) {result : Result}
    (hresult : (e.export order period full).result = .ok result) :
    ∃ result', (e.export order period { full with cancellation := c }).result = .ok result' ∧
      ∀ r ∈ Keyed.keys result'.relations, r ∈ Keyed.keys result.relations := by
  obtain ⟨attempts, attempts', hfull, hcut, -⟩ := h.accounts
  obtain ⟨writer, hclose, hcompleted⟩ :=
    Exporter.exists_finalize_of_isClosed ho (Outcome.isClosed_of_ok hresult)
  rw [hfull.writer, hfull.files] at hclose
  obtain ⟨writer', files', hclose'⟩ := Relation.Log.exists_finalize hfull.attempted hcut.attempted
    hfull.sanitized h.relations hcut.begun hcut.known hclose
  rw [← hcut.writer, ← hcut.files] at hclose'
  refine ⟨_, congrArg Outcome.result (Exporter.export_eq ho hthrough hclose'), ?_⟩
  rw [hcompleted result hresult, Result.keys_completed, Result.keys_completed]
  exact h.relations

end

/-- An export and the same one cancelled. -/
structure CutShort (e : Exporter) (order : Order) (settings : Settings) (period : Time.Period)
    (full cut : Session) : Prop where
  /-- What the cancelled one fetches is what the other one fetches first. -/
  fetches : (e.export order period cut).requests.filter Request.isFetch <+:
    (e.export order period full).requests.filter Request.isFetch
  /-- It fetches nothing after it was told to stop. -/
  stopped : ∀ before after, e.trace settings period cut = before ++ .asked true :: after →
    ∀ above path limit offset, .fetched above path limit offset ∉ after
  cancelled : ∀ result, (e.export order period cut).result = .ok result →
    (result.cancelled = true ↔ .asked true ∈ e.trace settings period cut)
  /-- If it is never told to stop, it does what the other one does. -/
  uncut : .asked true ∉ e.trace settings period cut →
    (e.export order period cut).result = (e.export order period full).result ∧
      (e.export order period cut).session.files = (e.export order period full).session.files
  /-- If the other one comes to its end, so does this one, and of the records it writes some, in the same
  order. -/
  written : e.IsThrough settings period full → e.IsThrough settings period cut ∧
    ∀ r, ((writesTo r (e.trace settings period cut)).map Relation.readBack).Sublist
      ((writesTo r (e.trace settings period full)).map Relation.readBack)
  /-- If the other one has a result, so does this one, with some of the relations and of the records in
  their files. -/
  completed : ∀ result, (e.export order period full).result = .ok result →
    ∃ result', (e.export order period cut).result = .ok result' ∧
      ∀ r ∈ Keyed.keys result'.relations, r ∈ Keyed.keys result.relations ∧ ∃ records records',
        Relation.read (e.export order period full).session.files (full.writer.path r) = .ok records ∧
        Relation.read (e.export order period cut).session.files (cut.writer.path r) = .ok records' ∧
        records'.Sublist records

theorem ended_of_synced {run run' : Except Relation.WriteError Unit × State}
    (h : Synced session run.2 run'.2) (hr : run.1 = run'.1) :
    (ended period run').result = (ended period run).result ∧
      (ended period run').session.files = (ended period run).session.files := by
  obtain ⟨r, s⟩ := run
  obtain ⟨r', s'⟩ := run'
  obtain rfl : r = r' := hr
  rw [show s' = _ from h.same]
  unfold ended
  dsimp only
  split <;> exact ⟨rfl, rfl⟩

theorem Exporter.cancelled_walked_iff (e : Exporter) (settings : Settings) (period : Time.Period)
    (session : Session) : (e.walked settings period session).result.cancelled = true ↔
      .asked true ∈ e.trace settings period session := by
  obtain ⟨-, hacts, -⟩ := e.run_traced settings period session
  have hinitial : (State.initial settings period session).result.cancelled = false := rfl
  rw [hacts.cancelled, hinitial]
  simp

end

/-- Two users of whom the first one has an order. -/
def Store.withOneOrder : Store where
  collections := [("u", [⟨"a", []⟩, ⟨"b", []⟩]), ("u/a/o", [⟨"x", []⟩])]
  distinct := by decide

namespace OneOrder

/-- An export whose order becomes a record that cannot be written, or stays as it is. -/
def exporter (writable : Bool) : Exporter :=
  ⟨.withOneOrder,
    if writable then [] else [("u_o", Hook.ofActions [.replace (.map [(.tuple [], .null)])])]⟩

def order : Order := { collection := "u", batchSize := 20, includeSubcollections := true }

def settings : Settings := ⟨"u", 20, 0, true, 3, 100, .flatten, by decide⟩

def period : Time.Period := ⟨⟨⟨2024, 5, 1⟩, {}, some 0⟩, ⟨⟨2024, 5, 1⟩, {}, some 0⟩⟩

/-- The order is not fetched if the export is cancelled after one check. -/
def session (cancellation : Cancellation) : Session :=
  ⟨⟨⟨false, ["out"]⟩, some 2, [], false⟩, .empty, cancellation⟩

end OneOrder
end BackendMigration.Export
