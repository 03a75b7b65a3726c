import BackendMigration.Proofs.Recognition.Selection
import BackendMigration.Proofs.Source.Block
import Mathlib.Data.List.Nodup

/-! The functions found in a text have blocks of it as their bodies. -/
namespace BackendMigration.Recognition

open Source

variable {registry : Registry} {t : Text} {filePath : String} {r : FunctionRecord}

theorem exists_of_namedFunctionBody {name : Text} (h : namedFunctionBody t name ≠ []) :
    ∃ block, IsBlockOf t block (namedFunctionBody t name) := by
  unfold namedFunctionBody at h ⊢
  split at h
  · exact exists_of_extractBlock h
  · exact absurd rfl h

/-- The last argument of a call whose list opens at an offset and ends at another one. -/
def LastArgument (t : Text) (opened close : Nat) (last : Span) : Prop :=
  closeOfCall? t opened = some close ∧
    ∃ arguments, argumentSpans? t opened = some arguments ∧ arguments.getLast? = some last

/-- An argument that is a name and nothing else. -/
def IsName (t : Text) (argument : Span) : Prop :=
  (identifier.matchAll? (Text.strip (argument.slice t))).isSome = true

/-- A body is taken from a call: its last argument is a name, or the body lies within the
parentheses of the call. -/
def WithinCall (t : Text) (m : Match) (block : Span) : Prop :=
  ∃ opened close last, lastOpen? m.text = some opened ∧
    LastArgument t (m.start + opened) close last ∧
    (IsName t last ∨ (m.start + opened < block.start ∧ block.stop < close))

theorem exists_of_callHandlerBody {m : Match} (h : callHandlerBody t m ≠ []) :
    ∃ block, IsBlockOf t block (callHandlerBody t m) ∧ WithinCall t m block := by
  unfold callHandlerBody at h ⊢
  split at h
  · exact absurd rfl h
  · rename_i opened ho
    split at h
    · exact absurd rfl h
    · rename_i last hlast
      obtain ⟨arguments, ha, hl⟩ := Option.bind_eq_some_iff.1 hlast
      obtain ⟨close, hc, hbounds⟩ := argumentSpans?_eq_some ha
      have hcall : LastArgument t (m.start + opened) close last := ⟨hc, arguments, ha, hl⟩
      dsimp only at h ⊢
      split at h
      · rename_i hname
        rw [if_pos hname]
        obtain ⟨block, hb⟩ := exists_of_namedFunctionBody h
        exact ⟨block, hb, opened, close, last, ho, hcall, .inl hname⟩
      · rename_i hname
        rw [if_neg hname]
        obtain ⟨hstart, hle, hstop⟩ := hbounds last (List.mem_of_getLast? hl)
        have hclose := stop_le_of_findBlock? (closeOfCall?_eq_some hc)
        change close ≤ t.length at hclose
        obtain ⟨block, hb, hbs, hbe⟩ := exists_of_functionBody hle (by omega) h
        exact ⟨block, hb, opened, close, last, ho, hcall, .inr ⟨by omega, by omega⟩⟩

/-- The block after a declaration, or else the first large one. -/
theorem exists_of_blockAfter {m : Match} {isBody : Bool}
    (h : (if isBody then extractBlock t m.stop else firstBlockOfSize fallbackBlockSize t) ≠ []) :
    ∃ block, IsBlockOf t block
      (if isBody then extractBlock t m.stop else firstBlockOfSize fallbackBlockSize t) := by
  cases isBody with
  | true => exact exists_of_extractBlock h
  | false => exact exists_of_firstBlockOfSize List.drop_zero h

/-- Wherever a body is looked for, what is found is a block; a direct declaration takes it from its
own call. -/
theorem exists_of_locateBody {m : Match} {rule : RecognitionRule} {name : String}
    (h : locateBody registry t m rule name ≠ []) :
    ∃ block, IsBlockOf t block (locateBody registry t m rule name) ∧
      (rule.style = .direct → WithinCall t m block) := by
  unfold locateBody at h ⊢
  split at h
  · obtain ⟨block, hb, hw⟩ := exists_of_callHandlerBody h
    exact ⟨block, hb, fun _ => hw⟩
  · rename_i hsource
    have hdirect (block : Span) (hs : rule.style = .direct) : WithinCall t m block := by
      simp [hs, Style.bodySource] at hsource
    have general (body : Text) (hb : ∃ block, IsBlockOf t block body) :
        ∃ block, IsBlockOf t block body ∧ (rule.style = .direct → WithinCall t m block) := by
      obtain ⟨block, hb⟩ := hb
      exact ⟨block, hb, hdirect block⟩
    refine general _ ?_
    cases hf : firstOf (handlersOf name) t with
    | none =>
      simp only [hf, List.isEmpty_nil, Bool.not_true, Bool.false_eq_true, if_false] at h ⊢
      exact exists_of_blockAfter h
    | some found =>
      simp only [hf] at h ⊢
      by_cases handled : (!(extractBlock t found.stop).isEmpty) = true
      · rw [if_pos handled] at h ⊢
        exact exists_of_extractBlock h
      · rw [if_neg handled] at h ⊢
        exact exists_of_blockAfter h

theorem body_ne_empty_of_hasMeaningfulBody {body : Text} (hr : r.body = String.ofList body)
    (h : r.hasMeaningfulBody = true) : body ≠ [] := by
  rintro rfl
  simp [FunctionRecord.hasMeaningfulBody, hr, Text.strip, Text.trim, minBodyLength] at h

/-- The rules that are known have distinct names. -/
theorem eq_of_name_of_mem_catalogue {a b : RecognitionRule} (ha : a ∈ catalogue)
    (hb : b ∈ catalogue) (h : a.name = b.name) : a = b := by
  have distinct : (catalogue.map (·.name)).Nodup := by decide
  exact List.inj_on_of_nodup_map distinct ha hb h

/-- Where the record of a function comes from. -/
theorem exists_candidate_of_mem_scan (h : r ∈ scan registry t filePath) :
    ∃ c, c ∈ selected registry.orStandard t ∧
      c.record registry.orStandard t filePath = r := by
  obtain ⟨c, hc, hr⟩ := List.mem_map.1 (List.mem_filter.1 h).1
  exact ⟨c, hc, hr⟩

/-- The body of a function found is a block of the text that is long enough. A direct declaration
takes it from its own call, unless the last argument of the call is a name. -/
theorem body_of_mem_scan (hk : registry.Known) (h : r ∈ scan registry t filePath) :
    ∃ block : Span,
      (findBlock? .braces t block.start = some block ∧ r.body = String.ofList (block.slice t) ∧
        IsBlock .braces (block.slice t)) ∧
      minBodyLength < (Text.strip r.body.toList).length ∧
      r.rawMatch = String.ofList (r.span.slice t) ∧
      ∀ rule ∈ catalogue, rule.name = r.rule → rule.style = .direct →
        ∃ before after close last, r.rawMatch.toList = before ++ '(' :: after ∧
          Nested .parentheses after ∧
          LastArgument t (r.span.start + before.length) close last ∧
          IsBlock .parentheses
            ((⟨r.span.start + before.length, close⟩ : Span).slice t) ∧
          (¬IsName t last → r.span.start + before.length < block.start ∧ block.stop < close) := by
  obtain ⟨c, hc, rfl⟩ := exists_candidate_of_mem_scan h
  have hmeaning := hasMeaningfulBody_of_mem_scan h
  have hcand := mem_candidates.1 (mem_candidates_of_mem_selected hc)
  have hrule := known_orStandard hk _ (List.mem_of_getElem? hcand.1)
  have hmatch := Pattern.matchesAt_of_mem_allMatches hcand.2
  obtain ⟨block, ⟨hfind, hbody⟩, hdirect⟩ :=
    exists_of_locateBody (body_ne_empty_of_hasMeaningfulBody rfl hmeaning)
  refine ⟨block, ⟨hfind, congrArg String.ofList hbody, isBlock_of_findBlock? distinct_braces hfind⟩,
    by simpa [FunctionRecord.hasMeaningfulBody] using hmeaning,
    congrArg String.ofList hmatch.text_eq, ?_⟩
  intro rule hmem hname hstyle
  obtain rfl := eq_of_name_of_mem_catalogue hmem hrule hname
  obtain ⟨opened, close, last, ho, hlast, hwithin⟩ := hdirect hstyle
  obtain ⟨before, after, htext, rfl, hafter⟩ := lastOpen?_eq_some ho
  refine ⟨before, after, close, last, ?_, hafter, hlast, isBlock_of_closeOfCall? hlast.1, ?_⟩
  · exact (String.toList_ofList).trans htext
  · exact fun hn => hwithin.resolve_left hn

/-- A handler written where the function is declared. -/
theorem body_of_mem_scan_inlined :
    let registry : Registry := ⟨catalogue.take 1⟩
    let t := "exports.pay = functions.https.onRequest((q, r) => \x7b r.send('paid'); \x7d);".toList
    registry.Known ∧ ∃ r ∈ scan registry t "index.js",
      ∃ block : Span, findBlock? .braces t block.start = some block ∧
        r.body = String.ofList (block.slice t) := by
  intro registry t
  have hk : registry.Known := fun rule h => List.mem_of_mem_take h
  obtain ⟨c, hc⟩ : ∃ c, candidates registry t = [c] :=
    List.length_eq_one_iff.1 (by decide +kernel)
  have hmeaning : ∀ c ∈ candidates registry t,
      (c.record registry t "index.js").hasMeaningfulBody = true := by
    decide +kernel
  have hr : c.record registry t "index.js" ∈ scan registry t "index.js" := by
    refine List.mem_filter.2 ⟨List.mem_map_of_mem ?_, hmeaning c (by simp [hc])⟩
    change c ∈ selected registry t
    simp [selected, hc, keepDisjoint]
  obtain ⟨block, ⟨hfind, hbody, _⟩, _⟩ := body_of_mem_scan hk hr
  exact ⟨hk, _, hr, block, hfind, hbody⟩

end BackendMigration.Recognition
