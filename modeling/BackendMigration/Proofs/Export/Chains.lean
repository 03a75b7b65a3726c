import BackendMigration.Proofs.Export.Order

/-! Which documents share a relation. -/
namespace BackendMigration.Export

open BackendMigration.Relation (sanitize isNameChar)

/-- The relation of documents that are met through collections of these names. -/
def relationOf (chain : List String) : String := sanitize ("_".intercalate chain)

/-- A name of letters and digits. -/
def IsPlainName (name : String) : Prop := ∀ c ∈ name.toList, isNameChar c = true

theorem IsPlainName.sanitize_eq {name : String} (h : IsPlainName name) : sanitize name = name := by
  have hmap : name.toList.map (fun c => if isNameChar c then c else '_') = name.toList :=
    (List.map_congr_left fun c hc => if_pos (h c hc)).trans (List.map_id _)
  rw [sanitize, hmap, String.ofList_toList]

theorem relationOf_eq (chain : List String) :
    relationOf chain = "_".intercalate (chain.map sanitize) := by
  induction chain with
  | nil => rfl
  | cons name rest ih =>
    cases rest with
    | nil => rw [relationOf, String.intercalate_singleton, List.map_singleton, String.intercalate_singleton]
    | cons next rest =>
      have hjoin : ∀ (n : String) (ns : List String), ns ≠ [] →
          "_".intercalate (n :: ns) = n ++ "_" ++ "_".intercalate ns := by
        intro n ns hns
        rw [← List.singleton_append, String.intercalate_append_of_ne_nil (List.cons_ne_nil _ _) hns,
          String.intercalate_singleton]
      have hrest : sanitize ("_".intercalate (next :: rest)) = _ := ih
      rw [relationOf, hjoin _ _ (List.cons_ne_nil _ _), Chained.sanitize_append, Chained.sanitize_append, hrest]
      exact (hjoin _ _ (List.cons_ne_nil _ _)).symm

/-- Names of letters and digits can be read off their join. -/
theorem eq_of_relationOf {chain chain' : List String} (hchain : chain ≠ []) (hchain' : chain' ≠ [])
    (hplain : ∀ name ∈ chain ++ chain', IsPlainName name) (h : relationOf chain = relationOf chain') :
    chain = chain' := by
  have hsplit : ∀ names : List String, names ≠ [] → (∀ name ∈ names, IsPlainName name) →
      (relationOf names).toList.splitOn '_' = names.map String.toList := by
    intro names hnames hall
    have hsanitized : names.map sanitize = names :=
      (List.map_congr_left fun name hname => (hall name hname).sanitize_eq).trans (List.map_id _)
    rw [relationOf_eq, hsanitized, String.toList_intercalate]
    refine List.splitOn_intercalate '_' (fun l hl hmem => ?_) (by simpa using hnames)
    obtain ⟨name, hname, rfl⟩ := List.mem_map.1 hl
    exact absurd (hall name hname '_' hmem) (by decide)
  have hleft := hsplit chain hchain fun name hname => hplain name (List.mem_append_left _ hname)
  have hright := hsplit chain' hchain' fun name hname => hplain name (List.mem_append_right _ hname)
  rw [h, hright] at hleft
  exact (List.map_injective_iff.2 (fun _ _ h => String.toList_injective h) hleft).symm

/-- A document that is written was passed on before. -/
theorem Exporter.exists_chained {e : Exporter} {settings : Settings} {period : Time.Period}
    {session : Session} {v : Visit} {fate : Fate}
    (h : .settled v fate ∈ e.trace settings period session) :
    ∃ chain, Chained e.store settings chain v := by
  obtain ⟨before, after, hsplit⟩ := List.append_of_mem h
  cases e.follows_trace settings period session hsplit with
  | @settled v record earlier added fate hbefore _ =>
    rw [hbefore, List.append_assoc] at hsplit
    cases e.follows_trace settings period session hsplit with
    | offered hv _ _ => exact ⟨_, hv⟩
    | addition h => cases h
  | addition h => cases h

/-- Documents go to relations by the names of the collections that they are met through. -/
structure SortsByChain (store : Store) (s : Settings) (trace : List Event) : Prop where
  written : ∀ v value, .settled v (.written value) ∈ trace →
    ∃ chain, Chained store s chain v ∧ v.relation = relationOf chain
  /-- Where the names are of letters and digits, no two chains of them share a relation. -/
  apart : ∀ chain v chain' w, Chained store s chain v → Chained store s chain' w →
    (∀ name ∈ chain ++ chain', IsPlainName name) → v.relation = w.relation → chain = chain'

/-- The relation of a document joins the names of the collections that it is met through, whatever the
hooks, failures and the time of a cancellation are. -/
theorem export_sorts_by_chain {e : Exporter} {order : Order} {settings : Settings}
    (period : Time.Period) (session : Session) (ho : order.settings = .ok settings) :
    e.IsTold order settings period session ∧
      SortsByChain e.store settings (e.trace settings period session) := by
  refine ⟨Exporter.isTold ho period session, fun v value h => ?_, ?_⟩
  · obtain ⟨chain, hv⟩ := Exporter.exists_chained h
    exact ⟨chain, hv, hv.relation_eq⟩
  · intro chain v chain' w hv hw hplain h
    rw [hv.relation_eq, hw.relation_eq] at h
    exact eq_of_relationOf hv.ne_nil hw.ne_nil hplain h

/-- A document with two nested collections, of which one has the name that the other one's joins with the
name of a collection nested in it. -/
def Store.withJoinedName : Store where
  collections :=
    [("u", [⟨"x", []⟩]), ("u/x/a", [⟨"y", []⟩]), ("u/x/a/y/b", [⟨"z", []⟩]), ("u/x/a_b", [⟨"w", []⟩])]
  distinct := by decide

namespace JoinedName

def exporter : Exporter := ⟨.withJoinedName, []⟩

def order : Order := { collection := "u", batchSize := 10, includeSubcollections := true }

def settings : Settings := ⟨"u", 10, 0, true, 3, 100, .flatten, by decide⟩

def period : Time.Period := ⟨⟨⟨2024, 5, 1⟩, {}, some 0⟩, ⟨⟨2024, 5, 1⟩, {}, some 0⟩⟩

def session : Session := ⟨⟨⟨false, ["out"]⟩, some 2, [], false⟩, .empty, .never⟩

theorem sorted_by_chain : exporter.IsTold order settings period session ∧
    SortsByChain exporter.store settings (exporter.trace settings period session) :=
  export_sorts_by_chain period session rfl

/-- Documents met through both are written to one relation, which has the parent and the depth of the
first of them. -/
theorem shares_relation :
    (∃ v w, Chained exporter.store settings ["u", "a", "b"] v ∧
      Chained exporter.store settings ["u", "a_b"] w ∧
      v.path = "u/x/a/y/b/z" ∧ w.path = "u/x/a_b/w" ∧ v.relation = w.relation) ∧
    ∃ result records, (exporter.export order period session).result = .ok result ∧
      (result.relations.map fun e => (e.1, e.2.depth, e.2.parent)) =
        [("u", 0, none), ("u_a", 1, some "u"), ("u_a_b", 2, some "u_a")] ∧
      Relation.read (exporter.export order period session).session.files
        (session.writer.path "u_a_b") = .ok records ∧
      records.map (·.field? "collection_path") =
        [some (.str "u/x/a/y/b"), some (.str "u/x/a_b")] := by
  have hx : Chained exporter.store settings ["u"] (.root "u" ⟨"x", []⟩) := .root List.mem_cons_self
  have hy : Chained exporter.store settings ["u", "a"]
      ((Visit.root "u" ⟨"x", []⟩).child "a" ⟨"y", []⟩) :=
    hx.child (by decide) List.mem_cons_self
  have hz : Chained exporter.store settings ["u", "a", "b"]
      (((Visit.root "u" ⟨"x", []⟩).child "a" ⟨"y", []⟩).child "b" ⟨"z", []⟩) :=
    hy.child (by decide) List.mem_cons_self
  have hw : Chained exporter.store settings ["u", "a_b"]
      ((Visit.root "u" ⟨"x", []⟩).child "a_b" ⟨"w", []⟩) :=
    hx.child (by decide) List.mem_cons_self
  refine ⟨⟨_, _, hz, hw, by decide, by decide, by decide⟩, ?_⟩
  have hrelations : ((exporter.export order period session).result.toOption.map fun r =>
      r.relations.map fun e => (e.1, e.2.depth, e.2.parent)) =
        some [("u", 0, none), ("u_a", 1, some "u"), ("u_a_b", 2, some "u_a")] := by decide +kernel
  cases hresult : (exporter.export order period session).result with
  | error f =>
    rw [hresult] at hrelations
    cases hrelations
  | ok result =>
    rw [hresult] at hrelations
    have hentries : (result.relations.map fun e => (e.1, e.2.depth, e.2.parent)) =
        [("u", 0, none), ("u_a", 1, some "u"), ("u_a_b", 2, some "u_a")] := Option.some.inj hrelations
    have hentry : ("u_a_b", (2 : Int), some "u_a") ∈
        result.relations.map fun e => (e.1, e.2.depth, e.2.parent) := by
      rw [hentries]
      simp
    obtain ⟨e, he, heq⟩ := List.mem_map.1 hentry
    have hmem : "u_a_b" ∈ Keyed.keys result.relations :=
      List.mem_map.2 ⟨e, he, congrArg Prod.fst heq⟩
    -- The file holds what the trace writes to it, so that there is no need to read it here.
    exact ⟨result, _, rfl, hentries,
      (Exporter.isTold rfl period session).read_of_ok hresult hmem, by decide +kernel⟩

end JoinedName
end BackendMigration.Export
