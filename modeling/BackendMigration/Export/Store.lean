import BackendMigration.Document.Value
import BackendMigration.Json.Basic

/-! The document store that an export reads, with the failures of its requests. -/
namespace BackendMigration.Export

/-- A document of a collection: its id and its fields. -/
structure StoredDocument where
  id : String
  entries : Document.Entries
  deriving Repr, Inhabited

/-- A document store: the documents of each collection path, the paths whose requests fail, and
whether documents know their own path. -/
structure Store where
  collections : Keyed (List StoredDocument)
  /-- No path has two collections. -/
  distinct : (Keyed.keys collections).Nodup
  failingFetches : List String := []
  failingListings : List String := []
  pathless : Bool := false
  deriving Repr

/-- A request to the store. -/
inductive Request where
  | fetch (path : String) (limit offset : Nat)
  | list (documentPath : String)
  deriving DecidableEq, Repr

def Request.toJson : Request → Json
  | fetch path limit offset => .arr [.str "fetch", .str path, .int limit, .int offset]
  | list documentPath => .arr [.str "list", .str documentPath]

namespace Store

/-- A store of collections; of two at one path the last one counts. -/
def ofCollections (collections : List (String × List StoredDocument))
    (failingFetches failingListings : List String) (pathless : Bool) : Store :=
  { collections := Keyed.ofPairs collections
    distinct := Keyed.nodup_keys_ofPairs collections
    failingFetches
    failingListings
    pathless }

/-- All documents of a collection. -/
def documents (s : Store) (path : String) : List StoredDocument :=
  (Keyed.get? path s.collections).getD []

/-- At most `limit` documents of a collection after the first `offset`, or the text of the
failure. -/
def fetch (s : Store) (path : String) (limit offset : Nat) :
    Except String (List StoredDocument) :=
  if path ∈ s.failingFetches then .error ("unavailable: " ++ path)
  else .ok (((s.documents path).drop offset).take limit)

/-- The last name of a collection path that lies right below a document. -/
def nestedName? (documentPath path : String) : Option String :=
  let above := documentPath.toList ++ ['/']
  let name := path.toList.drop above.length
  if above.isPrefixOf path.toList && !name.isEmpty && !name.contains '/' then
    some (String.ofList name)
  else none

/-- The names of the collections nested in a document, or the text of the failure. -/
def nestedCollections (s : Store) (documentPath : String) : Except String (List String) :=
  if documentPath ∈ s.failingListings then
    .error ("permission denied listing " ++ documentPath)
  else .ok ((Keyed.keys s.collections).filterMap (nestedName? documentPath))

/-- A fetch answers with no more documents than were asked for. -/
theorem length_fetch_le {s : Store} {path : String} {limit offset : Nat}
    {ds : List StoredDocument} (h : s.fetch path limit offset = .ok ds) : ds.length ≤ limit := by
  unfold fetch at h
  split at h
  · cases h
  · cases h
    exact List.length_take_le ..

/-- The path of a nested collection is the document's path and one more name. -/
theorem nestedName?_eq_some {documentPath path name : String}
    (h : nestedName? documentPath path = some name) :
    path.toList = documentPath.toList ++ '/' :: name.toList := by
  unfold nestedName? at h
  simp only at h
  split at h
  · rename_i hp
    simp only [Bool.and_eq_true] at hp
    obtain ⟨r, hr⟩ := List.isPrefixOf_iff_prefix.1 hp.1.1
    cases h
    simp [← hr]
  · cases h

/-- The names of nested collections are distinct. -/
theorem nodup_nestedCollections {s : Store} {documentPath : String} {names : List String}
    (h : s.nestedCollections documentPath = .ok names) : names.Nodup := by
  unfold nestedCollections at h
  split at h
  · cases h
  · cases h
    refine List.Pairwise.filterMap _ (fun a b hab x hx y hy => ?_) s.distinct
    rintro rfl
    refine hab (String.toList_injective ?_)
    rw [nestedName?_eq_some hx, nestedName?_eq_some hy]

end Store
end BackendMigration.Export
