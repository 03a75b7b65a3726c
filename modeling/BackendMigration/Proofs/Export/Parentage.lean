import BackendMigration.Export.Action
import BackendMigration.Proofs.Export.Order
import BackendMigration.Proofs.Export.Record

/-! Relations without orphans: a nested document is written after its parent, or not at all. -/
namespace BackendMigration.Export

/-- The linkage of a document names a parent that was written and then listed, after which the document
was fetched from the collection whose path the linkage tells. -/
structure IsParent (store : Store) (before : List Event) (v : Visit) (l : Linkage) (p : Visit) :
    Prop where
  relation : p.relation = l.relation
  id : p.document.id = l.documentId
  path : ∃ name, l.path = p.path ++ "/" ++ name ∧ '/' ∉ name.toList
  fetched : ∃ earlier value since later limit children, before =
      earlier ++ .settled p (.written value) :: .listed p ::
        (since ++ .fetched (some p) l.path limit 0 :: later) ∧
    store.fetch l.path limit 0 = .ok children ∧ v.document ∈ children ∧ v.collectionPath = l.path

variable {ctx : Context} {before : List Event} {v : Visit} {names : List String}

/-- In flatten mode what is listed was written just before. -/
theorem Listed.written (h : Listed ctx before v names) (hmode : ctx.settings.mode = .flatten) :
    ∃ earlier value since, before =
      earlier ++ .settled v (.written value) :: .listed v :: since := by
  obtain ⟨earlier, since, rfl, hwritten, -⟩ := h
  obtain ⟨value, hlast⟩ := hwritten hmode
  obtain ⟨front, rfl⟩ := List.getLast?_eq_some_iff.1 hlast
  exact ⟨front, value, since, by simp⟩

theorem Reached.isRoot_or_exists_parent (h : Reached ctx before v)
    (hmode : ctx.settings.mode = .flatten) :
    (∃ d, v = .root ctx.settings.collection d) ∨
      ∃ l p, v.linkage = some l ∧ IsParent ctx.store before v l p := by
  cases h with
  | root => exact .inl ⟨_, rfl⟩
  | @child p name children d earlier later hname hbefore hlisted hfetch hd =>
    obtain ⟨front, value, since, rfl⟩ := hlisted.written hmode
    refine .inr ⟨_, p, rfl, rfl, rfl, ⟨name, rfl, Visit.slash_not_mem_of_mem_nested hname⟩, ?_⟩
    exact ⟨front, value, since, later, _, children, by simp [hbefore], hfetch, hd, rfl⟩

/-- What is passed on to be written is of the exported collection, or its linkage names a parent that was
written before. Only what was just written is listed. -/
structure HasNoOrphans (store : Store) (collection : String) (trace : List Event) : Prop where
  offered : ∀ before v record after, trace = before ++ .offered v record :: after →
    Records record v.document v.linkage ∧
      ((∃ d, v = .root collection d) ∨ ∃ l p, v.linkage = some l ∧ IsParent store before v l p)
  listed : ∀ before v after, trace = before ++ .listed v :: after →
    ∃ value earlier, before = earlier ++ [.settled v (.written value)]

/-- Two users with orders, of whom one is gone. -/
def Store.withGone : Store where
  collections :=
    [("users", [⟨"ada", []⟩, ⟨"bob", [(.text "gone", .bool true)]⟩]),
      ("users/ada/orders", [⟨"first", []⟩]), ("users/bob/orders", [⟨"first", []⟩])]
  distinct := by decide

/-- The one who is gone is dropped. -/
def Exporter.withoutGone : Exporter :=
  ⟨.withGone, [("users", Hook.ofActions [.dropIf "gone" (.bool true)])]⟩

end BackendMigration.Export
