import BackendMigration.EdgeFunction.Generator
import BackendMigration.Proofs.Recognition.Names

/-! The identifiers in the scripts that install triggers. Functions found in sources have names that can be
part of one. Functions that only a list names can have dashes, and tables can begin with a digit. -/
namespace BackendMigration

open Document (Value)

namespace Inventory

/-- A record that one of the two ways to look for functions finds. -/
inductive Found (registry : Registry) : FunctionRecord → Prop
  | below {t : File.Tree} {directory : String} {c c' : Cancellation} {period : Time.Period}
      {e : Extraction} {r : FunctionRecord}
      (h : extractNamed registry t directory c period = .ok (e, c')) (hr : r ∈ e.records) :
      Found registry r
  | deployed {client : Client} {project : Value} {period : Time.Period} {e : Extraction}
      {commands : List (List Value)} {r : FunctionRecord}
      (h : extractAny registry client project period = .ok (e, commands)) (hr : r ∈ e.records) :
      Found registry r

variable {registry : Registry} {r : FunctionRecord}

theorem exists_of_mem_extractAny {client : Client} {project : Value} {period : Time.Period}
    {e : Extraction} {commands : List (List Value)}
    (h : extractAny registry client project period = .ok (e, commands)) (hr : r ∈ e.records) :
    ∃ output, ∃ f ∈ readListing output, r = (listedRecord registry client project f).1 := by
  unfold extractAny at h
  dsimp only at h
  split at h
  · cases h
    unfold extractProject at hr
    dsimp only at hr
    split at hr
    · cases hr
    · rename_i output _
      rw [List.map_map] at hr
      obtain ⟨f, hf, rfl⟩ := List.mem_map.1 hr
      exact ⟨output, f, hf, rfl⟩
  · cases h

/-- The name of a function that is found: of word characters, unless only a list names it. -/
theorem Found.isListedChar_of_mem_name (hk : registry.Known) (h : Found registry r) :
    (∀ a ∈ r.name.toList, isListedChar a = true) ∧
      (r.rule ≠ listingRule → ∀ a ∈ r.name.toList, Text.isWord a = true) := by
  cases h with
  | @below t directory c c' period e _ h hr =>
    unfold extractNamed at h
    split at h
    · cases h
    · have he : (extractDirectory registry t directory c period).1 = e :=
        congrArg Prod.fst (Except.ok.inj h)
      rw [← he] at hr
      have hname := isWord_of_mem_extractDirectory hk hr
      exact ⟨fun a ha => by simp [isListedChar, hname a ha], fun _ => hname⟩
  | @deployed client project _ _ _ _ h hr =>
    obtain ⟨output, f, hf, rfl⟩ := exists_of_mem_extractAny h hr
    refine ⟨?_, fun hrule => ?_⟩
    · rw [name_listedRecord]
      exact isListedChar_of_mem_readListing hf
    · cases hfetched : fetchedRecord? registry client project f.name with
      | none =>
        rw [listedRecord, hfetched] at hrule
        exact absurd rfl hrule
      | some r =>
        obtain ⟨output, front, back, -, hscan, hname, -⟩ := fetchedRecord?_eq_some_iff.1 hfetched
        have hmem : r ∈ Recognition.scan registry output.toList
            (projectSource project ++ "/" ++ f.name) := hscan ▸ by simp
        rw [name_listedRecord, ← hname]
        exact Recognition.isWord_of_mem_name hk hmem

end Inventory

namespace EdgeFunction

/-- A name that a script can use without quotes: of word characters, and with no digit in front. -/
def isIdentifier (s : String) : Bool :=
  match s.toList with
  | [] => false
  | c :: rest => Text.isWord c && !c.isDigit && rest.all Text.isWord

/-- A fixed front and a fixed back make an identifier of exactly the names of word characters. -/
theorem isIdentifier_around (front back name : String) (hf : isIdentifier front = true)
    (hb : back.toList.all Text.isWord = true) :
    isIdentifier (front ++ name ++ back) = name.toList.all Text.isWord := by
  unfold isIdentifier at hf ⊢
  rw [String.toList_append, String.toList_append]
  cases hfront : front.toList with
  | nil => simp [hfront] at hf
  | cons c rest =>
    simp only [hfront, Bool.and_eq_true] at hf
    simp only [List.cons_append, List.all_append, hf.1, hf.2, hb, Bool.true_and, Bool.and_true]

/-- The trigger of a function. -/
def triggerName (name : String) : String := "on_" ++ name

/-- The routine that the trigger of a function runs. -/
def routineName (name : String) : String := "trigger_" ++ name ++ "_webhook"

theorem isIdentifier_triggerName (name : String) :
    isIdentifier (triggerName name) = name.toList.all Text.isWord := by
  have h := isIdentifier_around "on_" "" name (by decide) (by decide)
  rwa [String.append_empty] at h

theorem isIdentifier_routineName (name : String) :
    isIdentifier (routineName name) = name.toList.all Text.isWord :=
  isIdentifier_around _ _ name (by decide) (by decide)

/-- A script ends with the statement that creates a trigger on a table, which runs a routine. -/
def Creates (script trigger table routine : String) : Prop :=
  ∃ front operations, script = front ++ linesText
    ["CREATE TRIGGER " ++ trigger, "  AFTER " ++ operations ++ " ON " ++ table, "  FOR EACH ROW",
      "  EXECUTE FUNCTION public." ++ routine ++ "();"]

theorem linesText_eq_append (n : Nat) (lines : List String) :
    linesText lines = linesText (lines.take n) ++ linesText (lines.drop n) := by
  rw [linesText, linesText, linesText, ← String.join_append, ← List.map_append, List.take_append_drop]

theorem creates_triggerScript (name table operations url : String) :
    Creates (triggerScript name table operations url) (triggerName name) table (routineName name) := by
  have htrigger : "CREATE TRIGGER " ++ triggerName name = "CREATE TRIGGER on_" ++ name := by
    rw [triggerName, ← String.append_assoc]
    rfl
  have hfront : "  EXECUTE FUNCTION public.trigger_" = "  EXECUTE FUNCTION public." ++ "trigger_" := by
    decide
  have hback : "_webhook();" = "_webhook" ++ "();" := by decide
  have hroutine : "  EXECUTE FUNCTION public." ++ routineName name ++ "();" =
      "  EXECUTE FUNCTION public.trigger_" ++ name ++ "_webhook();" := by
    simp only [routineName, hfront, hback, String.append_assoc]
  unfold Creates
  rw [htrigger, hroutine]
  exact ⟨_, operations, linesText_eq_append 25 _⟩

/-! Tables. -/

theorem isWord_of_isIdentifierChar {c : Char} (h : isIdentifierChar c = true) :
    Text.isWord c = true := by
  rw [isIdentifierChar, Bool.or_eq_true, beq_iff_eq] at h
  rcases h with h | rfl
  · exact Text.isWord_of_isAlphanum c (Text.toNat_lt_of_isAlphanum h) h
  · exact Text.isWord_underscore

/-- The character of a table name for one of a collection. -/
def tableChar (c : Char) : Char := if isIdentifierChar c then c else '_'

theorem isIdentifierChar_tableChar (c : Char) : isIdentifierChar (tableChar c) = true := by
  unfold tableChar
  split
  · assumption
  · decide

theorem isWord_tableChar (c : Char) : Text.isWord (tableChar c) = true :=
  isWord_of_isIdentifierChar (isIdentifierChar_tableChar c)

theorem isDigit_tableChar (c : Char) : (tableChar c).isDigit = c.isDigit := by
  unfold tableChar
  split
  · rfl
  · rename_i h
    cases hd : c.isDigit with
    | false => decide
    | true => exact absurd (by rw [isIdentifierChar, Char.isAlphanum, hd]; simp) h

/-- The last collection of a path that is no wildcard. -/
def lastCollection? (path : Option String) : Option Text :=
  (everyOther (pathSegments (path.getD "").toList)).reverse.find? fun s => s.head? != some '\x7b'

theorem deriveTable_eq (path : Option String) : deriveTable path =
    (lastCollection? path).elim defaultTable fun s => String.ofList (s.map tableChar) := by
  unfold deriveTable lastCollection?
  dsimp only
  split <;> rename_i h <;> rw [h] <;> rfl

theorem mem_of_mem_everyOther {α : Type} {l : List α} {a : α} (h : a ∈ everyOther l) : a ∈ l := by
  fun_induction everyOther l <;> grind

theorem ne_nil_of_lastCollection? {path : Option String} {s : Text} (h : lastCollection? path = some s) :
    s ≠ [] := by
  have hmem := mem_of_mem_everyOther (List.mem_reverse.1 (List.mem_of_find?_eq_some h))
  simpa using (List.mem_filter.1 hmem).2

theorem isWord_deriveTable (path : Option String) :
    (deriveTable path).toList.all Text.isWord = true := by
  rw [deriveTable_eq]
  cases lastCollection? path with
  | none => decide
  | some s => simp [isWord_tableChar]

/-- A table's name is no identifier exactly if its collection begins with a digit. -/
theorem isIdentifier_deriveTable (path : Option String) : isIdentifier (deriveTable path) =
    !(lastCollection? path).any fun s => s.head?.any Char.isDigit := by
  rw [deriveTable_eq]
  cases h : lastCollection? path with
  | none => decide
  | some s =>
    cases s with
    | nil => exact absurd rfl (ne_nil_of_lastCollection? h)
    | cons c rest => simp [isIdentifier, isWord_tableChar, isDigit_tableChar]

example : deriveTable (some "2024logs/{id}") = "2024logs" := by decide

/-! Scripts. -/

/-- The tables that a script can name. -/
def IsTableOf (r : FunctionRecord) (table : String) : Prop :=
  table = "auth.users" ∨ table = "storage.objects" ∨ table = "public." ++ deriveTable r.documentPath

theorem isTableOf_of_watched? {r : FunctionRecord} {table operations : String}
    (h : watched? r = some (table, operations)) : IsTableOf r table := by
  unfold watched? at h
  split at h
  · cases h
    exact .inr (.inr rfl)
  · split at h
    · cases h
      exact .inl rfl
    · split at h
      · cases h
        exact .inr (.inl rfl)
      · cases h

theorem all_isWord_iff {t : Text} (h : ∀ a ∈ t, Inventory.isListedChar a = true) :
    t.all Text.isWord = true ↔ '-' ∉ t := by
  rw [List.all_eq_true]
  constructor
  · intro hall hdash
    exact absurd (hall _ hdash) (by decide)
  · intro hdash a ha
    have := h a ha
    simp only [Inventory.isListedChar, Bool.or_eq_true, beq_iff_eq] at this
    exact this.resolve_right fun h => hdash (h ▸ ha)

variable {registry : Registry} {r : FunctionRecord}

/-- The script for a function that is found names its trigger, the routine that the trigger runs and a
table. The first two are identifiers unless there is a dash in the name of the function, which only a name
from a list without source can have. The table is of word characters and is an identifier unless
the collection it is for begins with a digit. -/
theorem companion_identifiers (hk : registry.Known) (hr : Inventory.Found registry r) (g : Generator)
    (url : Option String) {script : String} (hs : g.companionSql r url = some script) :
    ∃ table operations address, script = triggerScript r.name table operations address ∧
      Creates script (triggerName r.name) table (routineName r.name) ∧
      (isIdentifier (triggerName r.name) = true ↔ '-' ∉ r.name.toList) ∧
      (isIdentifier (routineName r.name) = true ↔ '-' ∉ r.name.toList) ∧
      ('-' ∈ r.name.toList → r.rule = Inventory.listingRule) ∧
      IsTableOf r table ∧ (deriveTable r.documentPath).toList.all Text.isWord = true ∧
      isIdentifier (deriveTable r.documentPath) =
        !(lastCollection? r.documentPath).any fun s => s.head?.any Char.isDigit := by
  unfold Generator.companionSql at hs
  obtain ⟨⟨table, operations⟩, hwatched, rfl⟩ := Option.map_eq_some_iff.1 hs
  obtain ⟨hlisted, hword⟩ := hr.isListedChar_of_mem_name hk
  have hiff := all_isWord_iff hlisted
  refine ⟨table, operations, _, rfl, creates_triggerScript _ _ _ _, ?_, ?_, ?_,
    isTableOf_of_watched? hwatched, isWord_deriveTable _, isIdentifier_deriveTable _⟩
  · rw [isIdentifier_triggerName, hiff]
  · rw [isIdentifier_routineName, hiff]
  · intro hdash
    by_contra hrule
    exact hiff.1 (List.all_eq_true.2 (hword hrule)) hdash

/-- A client that prints a list of functions, and no sources. -/
def listingClient (listing : String) : Inventory.Client :=
  ⟨.text Inventory.defaultProgram, .int Inventory.defaultTimeout, fun
    | .text "functions:list" :: _ => .printed listing
    | _ => .failed⟩

/-- What stands for a listed function without source is found. -/
theorem found_placeholder (listing : String) {f : Inventory.Listed}
    (h : f ∈ Inventory.readListing listing) :
    Inventory.Found registry (Inventory.placeholder (.text "demo") f) := by
  let time : Time.Timestamp := ⟨⟨2024, 1, 1⟩, {}, some 0⟩
  have hextract : Inventory.extractAny registry (listingClient listing) (.text "demo") ⟨time, time⟩ =
    .ok (Inventory.extractProject registry (listingClient listing) (.text "demo") ⟨time, time⟩) := rfl
  exact .deployed hextract (List.mem_map_of_mem (List.mem_map_of_mem h))

theorem companion_identifiers_notify :
    let r := Inventory.placeholder (.text "demo") ⟨"notify", "firestore", none⟩
    Registry.standard.Known ∧ Inventory.Found .standard r ∧
      ∃ script, Generator.standard.companionSql r none = some script ∧
        isIdentifier (triggerName r.name) = true ∧ isIdentifier (routineName r.name) = true := by
  intro r
  have hk : Registry.standard.Known := fun _ h => h
  have hfound : Inventory.Found .standard r :=
    found_placeholder "│ notify │ firestore │\n" (by decide)
  have hdash : '-' ∉ r.name.toList := by decide
  obtain ⟨_, _, _, _, _, htrigger, hroutine, -⟩ :=
    companion_identifiers hk hfound .standard none rfl
  exact ⟨hk, hfound, _, rfl, htrigger.2 hdash, hroutine.2 hdash⟩

/-- A function that is listed with a dash in its name is found, and the script for it is one that cannot
be run. -/
theorem companion_myFn : ∃ r script, Inventory.Found .standard r ∧ r.name = "my-fn" ∧
    Generator.standard.companionSql r none = some script ∧
    Creates script "on_my-fn" "public.your_table" "trigger_my-fn_webhook" ∧
    isIdentifier "on_my-fn" = false ∧ isIdentifier "trigger_my-fn_webhook" = false := by
  refine ⟨Inventory.placeholder (.text "demo") ⟨"my-fn", "firestore", none⟩, _,
    found_placeholder "│ my-fn │ firestore │\n" (by decide), rfl, rfl,
    ?_, by decide, by decide⟩
  exact creates_triggerScript _ _ _ _

end EdgeFunction
end BackendMigration
