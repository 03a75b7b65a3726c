import BackendMigration.Proofs.File.Listing
import BackendMigration.Proofs.Relation.Log
import Mathlib.Data.List.Nodup

/-! The names in the directory of a writer. -/
namespace BackendMigration.Relation

open File File.Tree

section lasting

variable {I : Tree → Prop} {t : Tree}

/-! What making directories and writing files keep, a writer keeps. -/

theorem Writer.lasting_write (w : Writer) (hI : Lasting I) (h : I t) (r : String)
    (record : Document.Value) : I (w.write t r record).2 := by
  have hcounted : ∀ n p, I p.2 → I (w.counted r n p).2 := by
    rintro n ⟨_ | _, u⟩ hu
    · exact hu
    · exact hu
  unfold Writer.write
  split
  · exact h
  · split
    · exact h
    · split
      · split
        · exact h
        · rename_i hmade
          exact hcounted _ _ (hI.writeText (hI.makeDirectories h hmade) _ _)
      · exact hcounted _ _ (hI.appendText h _ _)

theorem Writer.lasting_closeAll (w : Writer) (hI : Lasting I) (h : I t) (names : List String) :
    I (w.closeAll t names).2 := by
  induction names generalizing t with
  | nil => exact h
  | cons r rest ih =>
    have happend := hI.appendText h (w.path r) "\n]\n".toList
    rw [closeAll_cons]
    split
    · rename_i hfault
      rwa [hfault] at happend
    · rename_i hdone
      rw [hdone] at happend
      exact ih happend

theorem Writer.lasting_emptyAll (w : Writer) (hI : Lasting I) (h : I t) (names : List String) :
    I (w.emptyAll t names).2 := by
  induction names generalizing t with
  | nil => exact h
  | cons r rest ih =>
    have hwrite := hI.writeText h (w.path r) "[]\n".toList
    rw [emptyAll_cons]
    split
    · rename_i hfault
      rwa [hfault] at hwrite
    · rename_i hdone
      rw [hdone] at hwrite
      exact ih hwrite

theorem Writer.lasting_finalize (w : Writer) (hI : Lasting I) (h : I t) (relations : List String) :
    I (w.finalize t relations).2 := by
  have hclosed := w.lasting_closeAll hI h (Keyed.keys w.counts)
  unfold Writer.finalize
  split
  · exact h
  · split
    · rename_i hclose
      rwa [hclose] at hclosed
    · rename_i hclose
      rw [hclose] at hclosed
      split
      · exact hclosed
      · split
        · exact hclosed
        · rename_i hmade
          have hempty := w.lasting_emptyAll hI (hI.makeDirectories hclosed hmade)
            (relations.filter fun r => !Keyed.has r w.counts)
          split
          · rename_i hfault
            rwa [hfault] at hempty
          · rename_i hdone
            rwa [hdone] at hempty

theorem Log.lasting_run {w : Writer} {files : Tree} (hI : Lasting I) (h : I files)
    (attempts : List (String × Document.Value)) : I (Log.run w files attempts).files := by
  induction attempts using List.reverseRecOn with
  | nil => exact h
  | append_singleton attempts a ih =>
    have hwrite := (Log.run w files attempts).writer.lasting_write hI ih a.1 a.2
    rw [Log.run_concat]
    unfold Log.attempt
    split
    · rename_i hdone
      rwa [hdone] at hwrite
    · rename_i hfault
      rwa [hfault] at hwrite

end lasting

theorem sanitize_ne_empty {name : String} (h : name ≠ "") : sanitize name ≠ "" := by
  intro he
  apply h
  rw [← String.length_eq_zero_iff, ← length_sanitize, he]
  rfl

/-- Something stands where records can be read. -/
theorem exists_of_read {files : Tree} {p : Path} {records : List Json}
    (h : read files p = .ok records) : ∃ q, files.resolve p = .ok q ∧ files.node? q ≠ none := by
  unfold read readText Tree.read reach at h
  cases hresolve : files.resolve p with
  | error cause =>
    rw [hresolve] at h
    cases h
  | ok q =>
    refine ⟨q, rfl, fun hnone => ?_⟩
    rw [hresolve] at h
    simp only [bind, Except.bind, hnone] at h
    cases h

variable {l : Log} {w : Writer} {base files : Tree} {place : Path} {relations : List String}

/-- A run that begins in an empty directory makes no file but those of its relations. -/
theorem Log.Finished.perm_childNames (h : l.Finished w base place relations files)
    (hplace : base.resolve w.directory = .ok place) (hempty : base.childNames w.directory = [])
    (hopened : ∀ r ∈ l.opened, r ∈ relations) (hdistinct : files.Distinct) (hr : ∀ r ∈ relations, sanitize r = r)
    (hrelations : relations.Nodup) :
    (files.childNames w.directory).Perm (relations.map (· ++ ".json")) := by
  have hnone : ∀ name, base.node? (place.child name) = none := by
    intro name
    by_contra hnode
    have hmem := (mem_childNames hplace).2 hnode
    rw [hempty] at hmem
    exact List.not_mem_nil hmem
  have hchanged : ∀ p, files.node? p ≠ base.node? p → ∃ r ∈ relations, p = jsonFile place r := by
    intro p hp
    rcases h.other p hp with hmem | ⟨r, hmem, hpath, -⟩
    · exact hmem
    · exact ⟨r, hopened r hmem, hpath⟩
  -- No directory became a file: the directory was empty, and nothing else has changed.
  have hkept : KeepsDirectories base files := by
    intro p hp
    by_contra hdiffers
    obtain ⟨r, -, rfl⟩ := hchanged p (by rwa [hp])
    rw [jsonFile, hnone] at hp
    cases hp
  have hresolve : files.resolve w.directory = .ok place := resolve_of_keeps hkept hplace
  have hinjective : Function.Injective (· ++ ".json") := by
    intro a b hab
    exact jsonFile_inj (congrArg place.child hab)
  rw [List.perm_ext_iff_of_nodup (hdistinct.nodup_childNames _) (List.Nodup.map hinjective hrelations)]
  intro name
  rw [mem_childNames hresolve, List.mem_map]
  constructor
  · intro hnode
    obtain ⟨r, hmem, hpath⟩ := hchanged (place.child name) (by rwa [hnone])
    refine ⟨r, hmem, ?_⟩
    simpa [jsonFile, Path.child] using hpath.symm
  · rintro ⟨r, hmem, rfl⟩
    have hslash := slash_not_mem_of_sanitize (hr r hmem)
    have hread := h.read r hmem
    obtain ⟨q, hq, hnode⟩ := exists_of_read hread
    rwa [eq_jsonFile_of_resolve hplace hslash hq] at hnode

end BackendMigration.Relation
