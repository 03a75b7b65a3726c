import BackendMigration.EdgeFunction.Generator
import BackendMigration.Proofs.Text.Occurrence

/-! What the pages of edge functions are made of: fixed parts, and the texts of a record. -/
namespace BackendMigration

/-- A record of a supported kind with a schedule that can be read becomes its edge function. -/
theorem Generator.generate_eq_unit {g : Generator} {r : FunctionRecord} (hk : r.kind ∈ g.kinds)
    (hs : EdgeFunction.scheduleFault? r.schedule = none) :
    g.generate r = .ok (some (g.unit r)) := by
  have hsupports : g.supports r.kind = true := by simpa [supports] using hk
  rw [generate, if_pos hsupports, hs, ite_self]

namespace EdgeFunction

/-- The notes end a page, whatever they are. -/
theorem page_eq_append (r : FunctionRecord) (body comment : String) :
    page r body comment = page r body "" ++ comment := by
  unfold page
  split <;> simp [httpPage, callablePage, webhookPage, scheduledPage]

theorem toList_linesText (lines : List String) :
    (linesText lines).toList = (lines.map String.toList).flatMap (· ++ ['\n']) := by
  rw [linesText, String.toList_join, List.flatMap_map, List.flatMap_map]
  congr 1
  funext line
  exact String.toList_append

theorem infix_linesText {lines : List String} {line : String} (h : line ∈ lines) :
    line.toList <:+: (linesText lines).toList := by
  obtain ⟨before, after, rfl⟩ := List.append_of_mem h
  rw [toList_linesText]
  simp only [List.map_append, List.map_cons, List.flatMap_append, List.flatMap_cons]
  exact ⟨(before.map String.toList).flatMap (· ++ ['\n']),
    '\n' :: (after.map String.toList).flatMap (· ++ ['\n']), by simp⟩

/-- A text occurs in a string. -/
def mentions (needle : Text) (s : String) : Bool := Text.occursIn needle s.toList

theorem mentions_append (needle : Text) (s t : String) :
    mentions needle (s ++ t) = Text.occursIn needle (s.toList ++ t.toList) := by
  rw [mentions, String.toList_append]

/-- The fixed parts of the notes that texts stand beside. -/
def noteParts : List String :=
  [" * - ", " * - Original trigger kind: ", " * - Source file: ", "Publishers of topic '",
    "' must POST messages to ", "Previously deployed at ", " *     '", " *       url := '", "',"]

/-- The fixed notes and lines of notes. -/
def noteLines : List String :=
  ["Test with representative request payloads",
    "Configure the SUPABASE_WEBHOOK_SECRET environment variable",
    "Install the database trigger in trigger.sql",
    "Configure the CRON_SECRET environment variable",
    " * - Search for MIGRATION_REVIEW markers before deploying",
    "Schedule with pg_cron (run in the SQL editor):",
    " *   CREATE EXTENSION IF NOT EXISTS pg_cron;",
    " *   SELECT cron.schedule(",
    " *     $$ SELECT net.http_post(",
    " *       headers := '\x7b\"Content-Type\": \"application/json\", " ++
      "\"Authorization\": \"Bearer YOUR_CRON_SECRET\"\x7d'::jsonb",
    " *     ) $$",
    " *   );"]

/-- The lines of the notes between the one that opens the comment and the one that closes it. -/
def innerLines (kind sourceFile : String) (notes : List String) (needsReview : Bool) :
    List String :=
  [" * - Original trigger kind: " ++ kind] ++
    (if sourceFile.isEmpty then [] else [" * - Source file: " ++ sourceFile]) ++
    notes.map (" * - " ++ ·) ++
    (if needsReview then [" * - Search for MIGRATION_REVIEW markers before deploying"] else [])

/-- A text that is not broken over lines, and that no fixed part of the notes has a share in. -/
structure Foreign (needle : Text) : Prop where
  ne_nil : needle ≠ []
  unbroken : '\n' ∉ needle
  parts : ∀ f ∈ noteParts, Text.Leads needle f.toList ∧ Text.Trails needle f.toList
  kinds : ∀ kind ∈ TriggerKind.all, mentions needle kind.name = false
  lines : ∀ line ∈ noteLines, mentions needle line = false

/-- The texts that the notes of a record show: where it comes from and where it was deployed, and
what a queue or the clock needs to run it at its address. -/
def notedTexts (r : FunctionRecord) (functionUrl : String) : List String :=
  [r.sourceFile, r.url.getD ""] ++
    (if r.kind = .queueMessage then [spelledOut r.topic, functionUrl] else []) ++
    (if r.kind = .timeSchedule then
      (cronOf r.schedule).note.toList ++ [r.name, (cronOf r.schedule).expression, functionUrl]
      else [])

section fixed

variable {needle : Text} {f : String}

theorem mentions_fixed_append (hf : Text.Leads needle f.toList) (s : String) :
    mentions needle (f ++ s) = mentions needle s := by
  rw [mentions_append, Text.occursIn_fixed_append hf, mentions]

theorem mentions_append_fixed (hf : Text.Trails needle f.toList) (s : String) :
    mentions needle (s ++ f) = mentions needle s := by
  rw [mentions_append, Text.occursIn_append_fixed hf, mentions]

theorem mentions_append_fixed_append (hl : Text.Leads needle f.toList)
    (ht : Text.Trails needle f.toList) (hn : f.toList ≠ []) (s t : String) :
    mentions needle (s ++ f ++ t) = (mentions needle s || mentions needle t) := by
  rw [String.append_assoc, mentions_append, String.toList_append,
    Text.occursIn_append_fixed_append hn hl ht.2, mentions, mentions]

end fixed

theorem mentions_empty {needle : Text} (hn : needle ≠ []) : mentions needle "" = false :=
  Text.occursIn_nil hn

theorem mentions_linesText_append {needle : Text} (hn : needle ≠ []) (hc : '\n' ∉ needle)
    (lines : List String) (s : String) :
    mentions needle (linesText lines ++ s) =
      (lines.any (mentions needle) || mentions needle s) := by
  rw [mentions, String.toList_append, toList_linesText, Text.occursIn_flatMap_concat hn hc,
    List.any_map]
  rfl

theorem mentions_linesText {needle : Text} (hn : needle ≠ []) (hc : '\n' ∉ needle)
    (lines : List String) : mentions needle (linesText lines) = lines.any (mentions needle) := by
  have h := mentions_linesText_append hn hc lines ""
  rwa [String.append_empty, mentions_empty hn, Bool.or_false] at h

theorem mentions_intercalate {needle : Text} (hn : needle ≠ []) (hc : '\n' ∉ needle)
    (lines : List String) :
    mentions needle ("\n".intercalate lines) = lines.any (mentions needle) := by
  have hfeed : "\n".toList = ['\n'] := by decide
  rw [mentions, String.toList_intercalate, Text.intercalate_eq_join, hfeed,
    Text.occursIn_join hn hc, List.any_map]
  rfl

namespace Foreign

variable {needle : Text} (hf : Foreign needle)
include hf

theorem leads {f : String} (h : f ∈ noteParts) : Text.Leads needle f.toList := (hf.parts f h).1

theorem trails {f : String} (h : f ∈ noteParts) : Text.Trails needle f.toList := (hf.parts f h).2

theorem mentions_queueNote (topic functionUrl : String) :
    mentions needle
        ("Publishers of topic '" ++ topic ++ "' must POST messages to " ++ functionUrl) =
      (mentions needle topic || mentions needle functionUrl) := by
  rw [mentions_append_fixed_append (hf.leads (by simp [noteParts])) (hf.trails (by simp [noteParts]))
    (by decide), mentions_fixed_append (hf.leads (by simp [noteParts]))]

theorem mentions_cronNote (name cron functionUrl : String) :
    mentions needle (cronNote name cron functionUrl) =
      (mentions needle name || mentions needle cron || mentions needle functionUrl) := by
  have hquoted (s : String) : mentions needle (" *     '" ++ s ++ "',") = mentions needle s := by
    rw [mentions_append_fixed (hf.trails (by simp [noteParts])),
      mentions_fixed_append (hf.leads (by simp [noteParts]))]
  have hurl : mentions needle (" *       url := '" ++ functionUrl ++ "',") =
      mentions needle functionUrl := by
    rw [mentions_append_fixed (hf.trails (by simp [noteParts])),
      mentions_fixed_append (hf.leads (by simp [noteParts]))]
  have hlines := hf.lines
  simp only [noteLines, List.forall_mem_cons] at hlines
  rw [cronNote, mentions_intercalate hf.ne_nil hf.unbroken]
  simp only [List.any_cons, List.any_nil, hquoted, hurl, hlines, Bool.false_or, Bool.or_false,
    Bool.or_assoc]

theorem any_mentions_ite {p : Prop} [Decidable p] {line : String} (h : line ∈ noteLines) :
    (if p then [line] else []).any (mentions needle) = false := by
  split
  · simp [hf.lines line h]
  · rfl

theorem any_mentions_deployed (url : Option String) :
    ((nonempty? url).map ("Previously deployed at " ++ ·)).toList.any (mentions needle) =
      mentions needle (url.getD "") := by
  cases url with
  | none => exact (mentions_empty hf.ne_nil).symm
  | some s =>
    by_cases hs : s.isEmpty = true
    · obtain rfl := String.isEmpty_iff.1 hs
      exact (mentions_empty hf.ne_nil).symm
    · have hs : nonempty? (some s) = some s := by simp [nonempty?, Option.filter, hs]
      have hurl : mentions needle ("Previously deployed at " ++ s) = mentions needle s :=
        mentions_fixed_append (hf.leads (by simp [noteParts])) s
      rw [hs]
      simp [hurl]

theorem any_mentions_schedule (r : FunctionRecord) (functionUrl : String) :
    ("Configure the CRON_SECRET environment variable" :: ((cronOf r.schedule).note.toList ++
        [cronNote r.name (cronOf r.schedule).expression functionUrl])).any (mentions needle) =
      ((cronOf r.schedule).note.toList ++
        [r.name, (cronOf r.schedule).expression, functionUrl]).any (mentions needle) := by
  have hsecret := hf.lines "Configure the CRON_SECRET environment variable" (by simp [noteLines])
  simp only [List.any_cons, List.any_append, List.any_nil, hsecret, hf.mentions_cronNote,
    Bool.false_or, Bool.or_false, Bool.or_assoc]

/-- A note mentions what the texts mention that it shows. -/
theorem any_mentions_notes (r : FunctionRecord) (functionUrl : String) :
    (mentions needle r.sourceFile || (notes r functionUrl).any (mentions needle)) =
      (notedTexts r functionUrl).any (mentions needle) := by
  unfold notes notedTexts
  dsimp only
  simp only [List.any_append, hf.any_mentions_deployed]
  rw [hf.any_mentions_ite (by simp [noteLines]), hf.any_mentions_ite (by simp [noteLines]),
    hf.any_mentions_ite (by simp [noteLines])]
  have hqueue : (if r.kind = .queueMessage then
      ["Publishers of topic '" ++ spelledOut r.topic ++ "' must POST messages to " ++ functionUrl]
      else []).any (mentions needle) =
        (if r.kind = .queueMessage then [spelledOut r.topic, functionUrl] else []).any
          (mentions needle) := by
    split
    · simp [hf.mentions_queueNote]
    · rfl
  rw [hqueue]
  by_cases hk : r.kind = .timeSchedule
  · rw [if_pos hk, if_pos hk, hf.any_mentions_schedule]
    simp only [List.any_cons, List.any_nil, Bool.false_or, Bool.or_false, Bool.or_assoc,
      Bool.or_comm, Bool.or_left_comm]
  · rw [if_neg hk, if_neg hk]
    simp only [List.any_cons, List.any_nil, Bool.false_or, Bool.or_false, Bool.or_assoc,
      Bool.or_comm]

theorem any_mentions_sourceFile (file : String) :
    (if file.isEmpty then [] else [" * - Source file: " ++ file]).any (mentions needle) =
      mentions needle file := by
  split
  · rename_i hempty
    obtain rfl := String.isEmpty_iff.1 hempty
    exact (mentions_empty hf.ne_nil).symm
  · have hfile : mentions needle (" * - Source file: " ++ file) = mentions needle file :=
      mentions_fixed_append (hf.leads (by simp [noteParts])) file
    simp [hfile]

theorem any_mentions_innerLines (r : FunctionRecord) (functionUrl : String) (needsReview : Bool) :
    (innerLines r.kind.name r.sourceFile (notes r functionUrl) needsReview).any (mentions needle) =
      (notedTexts r functionUrl).any (mentions needle) := by
  have hnote : (mentions needle ∘ (" * - " ++ ·)) = mentions needle := by
    funext note
    exact mentions_fixed_append (hf.leads (by simp [noteParts])) note
  have hkind : mentions needle (" * - Original trigger kind: " ++ r.kind.name) = false := by
    rw [mentions_fixed_append (hf.leads (by simp [noteParts]))]
    exact hf.kinds _ r.kind.mem_all
  have hlast : (if needsReview then [" * - Search for MIGRATION_REVIEW markers before deploying"]
      else []).any (mentions needle) = false :=
    hf.any_mentions_ite (by simp [noteLines])
  rw [← hf.any_mentions_notes, innerLines, List.any_append, List.any_append, List.any_append,
    List.any_map, hnote, hf.any_mentions_sourceFile]
  simp [hkind, hlast]

end Foreign

end EdgeFunction
end BackendMigration
