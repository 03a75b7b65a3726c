import BackendMigration.Inventory.Directory
import BackendMigration.Proofs.Inventory.Deployed
import BackendMigration.Proofs.Recognition.Body

/-! The names of functions: those found in a source text are words, those that a project lists can have
dashes. -/
namespace BackendMigration

theorem Pattern.isWord_of_allows_word {a : Char} (h : Pattern.word.allows a = true) :
    Text.isWord a = true := by
  simpa [Pattern.word, Pattern.repeated, Pattern.allows, CharClass.holds] using h

namespace Recognition

variable {registry : Registry} {t : Text} {filePath : String} {r : FunctionRecord}

theorem eq_word_of_mem_catalogue : ∀ rule ∈ catalogue, ∀ e ∈ rule.pattern.parts,
    e.1 = "name" → e.2 = Pattern.word := by
  decide +kernel

theorem name_resolve (rule : RecognitionRule) (m : Match) :
    (rule.resolve m).name = (m.part? "name").map String.ofList := by
  unfold RecognitionRule.resolve
  cases rule.family <;> rfl

/-- The name of a function found in a text is of word characters. -/
theorem isWord_of_mem_name (hk : registry.Known) (h : r ∈ scan registry t filePath) :
    ∀ a ∈ r.name.toList, Text.isWord a = true := by
  obtain ⟨c, hc, rfl⟩ := exists_candidate_of_mem_scan h
  have hcand := mem_candidates.1 (mem_candidates_of_mem_selected hc)
  have hrule := known_orStandard hk _ (List.mem_of_getElem? hcand.1)
  obtain ⟨previous, hmatch⟩ := Pattern.matchesAt_of_mem_allMatches hcand.2
  change ∀ a ∈ ((c.rule.resolve c.found).name.getD "").toList, Text.isWord a = true
  rw [name_resolve]
  cases hname : c.found.part? "name" with
  | none => exact fun a ha => absurd ha (by simp)
  | some name =>
    obtain ⟨q, hq, hall⟩ := Pattern.exists_allows_of_part? hmatch hname
    obtain rfl : q = Pattern.word := eq_word_of_mem_catalogue _ hrule _ hq rfl
    intro a ha
    rw [Option.map_some, Option.getD_some, String.toList_ofList] at ha
    exact Pattern.isWord_of_allows_word (hall a ha)

end Recognition

namespace Inventory

variable {registry : Registry} {t : File.Tree} {r : FunctionRecord}

theorem mem_records_scanFiles {c : Cancellation} {ps : List File.Path}
    (h : r ∈ (scanFiles registry t c ps).1.records) :
    ∃ text path, r ∈ Recognition.scan registry text path := by
  induction ps generalizing c with
  | nil => cases h
  | cons p rest ih =>
    unfold scanFiles at h
    split at h
    · cases h
    · rename_i c' _
      change r ∈ ((scanFiles registry t c' rest).1.withFile (scanFile registry t p)).records at h
      unfold Scanned.withFile at h
      split at h
      · rename_i records hfile
        rcases List.mem_append.1 h with h | h
        · unfold scanFile at hfile
          split at hfile
          · cases hfile
            exact ⟨_, _, h⟩
          · cases hfile
        · exact ih h
      · exact ih h

/-- The names of functions found below a directory are of word characters. -/
theorem isWord_of_mem_extractDirectory (hk : registry.Known) {directory : String} {c : Cancellation}
    {period : Time.Period}
    (h : r ∈ (extractDirectory registry t directory c period).1.records) :
    ∀ a ∈ r.name.toList, Text.isWord a = true := by
  have hrecords : (extractDirectory registry t directory c period).1.records =
      (scanFiles registry t c (sourceFiles t directory)).1.records := by
    unfold extractDirectory
    cases scanFiles registry t c (sourceFiles t directory)
    rfl
  rw [hrecords] at h
  obtain ⟨text, path, hscan⟩ := mem_records_scanFiles h
  exact Recognition.isWord_of_mem_name hk hscan

/-- A character of a name in a list. -/
def isListedChar (a : Char) : Bool := Text.isWord a || a == '-'

theorem isListedChar_of_allows {a : Char} (h : cellNamePattern.allows a = true) :
    isListedChar a = true := by
  simpa [cellNamePattern, Pattern.repeated, Pattern.allows, CharClass.holds, isListedChar] using h

theorem eq_word_of_mem_namedUrlPattern : ∀ e ∈ namedUrlPattern.parts,
    e.1 = "name" → e.2 = Pattern.word := by
  decide

/-- The names in a list are of word characters and dashes. -/
theorem isListedChar_of_mem_readListing {output : String} {f : Listed} (h : f ∈ readListing output) :
    ∀ a ∈ f.name.toList, isListedChar a = true := by
  obtain ⟨line, -, hline⟩ := List.mem_filterMap.1 (mem_distinctNames h).1
  unfold listed? at hline
  dsimp only at hline
  split at hline
  · unfold listedInRow? at hline
    split at hline
    · cases hline
    · rename_i name rest hcells
      split at hline
      · cases hline
      · rename_i hname
        cases hline
        have hmatch : (cellNamePattern.matchAll? name).isSome = true := by
          simp only [Bool.or_eq_true, not_or, Bool.not_eq_true, Option.isNone_eq_false_iff] at hname
          exact hname.1
        obtain ⟨m, hm⟩ := Option.isSome_iff_exists.1 hmatch
        intro a ha
        rw [String.toList_ofList] at ha
        exact isListedChar_of_allows (Pattern.allows_of_mem_matchAll? hm a ha)
  · split at hline
    · unfold listedOnLine? at hline
      obtain ⟨name, hname, rfl⟩ := Option.map_eq_some_iff.1 hline
      obtain ⟨m, hm, hpart⟩ := Option.bind_eq_some_iff.1 hname
      obtain ⟨c, hmatch⟩ := Pattern.exists_of_search? hm
      obtain ⟨q, hq, hall⟩ := Pattern.exists_allows_of_part? hmatch hpart
      obtain rfl : q = Pattern.word := eq_word_of_mem_namedUrlPattern _ hq rfl
      intro a ha
      rw [String.toList_ofList] at ha
      simp [isListedChar, Pattern.isWord_of_allows_word (hall a ha)]
    · cases hline

end Inventory
end BackendMigration
