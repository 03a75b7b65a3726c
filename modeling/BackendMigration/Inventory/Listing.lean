import BackendMigration.Function.Trigger
import BackendMigration.Json.Basic
import BackendMigration.Pattern.Match
import BackendMigration.Text.Lines

/-! The printed list of deployed functions. -/
namespace BackendMigration.Inventory

/-- A listed function: its name, the description of its trigger and its address. -/
structure Listed where
  name : String
  trigger : String
  url : Option String
  deriving DecidableEq, Repr

def Listed.toJson (f : Listed) : Json :=
  .obj [("name", .str f.name), ("trigger", .str f.trigger), ("url", Json.ofText? f.url)]

/-- The bars between the cells of a row. -/
def bars : String := "│|"

def isBar (c : Char) : Bool := bars.toList.contains c

/-- An address, up to white space or a bar. -/
def urlPattern : Pattern :=
  .concat [.text "https://", .repeated (.one (.except (.union .blank (.oneOf bars))))]

/-- A word, white space and an address after it. -/
def namedUrlPattern : Pattern :=
  .concat [.part "name" .word, .someBlanks, .many (.one (.noneOf "\n")), .text "https://"]

/-- A name of word characters and dashes. -/
def cellNamePattern : Pattern := .repeated (.one (.union .word (.only '-')))

/-- First cells of header rows, in small letters. -/
def headerWords : List String := ["function", "name"]

/-- Pieces after the first, without the white space next to bars. -/
def trimCells : List Text → List Text
  | [] => []
  | [last] => [Text.trimStart Text.isBlank last]
  | c :: cs => Text.strip c :: trimCells cs

/-- The cells of a row, without empty ones. The row's outer bars do not count. -/
def rowCells (row : Text) : List Text :=
  let inner := Text.trim (fun c => isBar c || c == ' ') row
  let cells := match Text.splitBy isBar inner with
    | [] => []
    | [only] => [only]
    | c :: cs => Text.trimEnd Text.isBlank c :: trimCells cs
  cells.filter fun c => !c.isEmpty

def isHeader (cell : Text) : Bool := headerWords.contains (String.ofList (Text.lowerLatin cell))

/-- The function in a table row: the first cell is its name, the others describe its trigger. -/
def listedInRow? (row : Text) (url : Option String) : Option Listed :=
  match rowCells row with
  | [] => none
  | name :: rest =>
    if (cellNamePattern.matchAll? name).isNone || isHeader name then none
    else some ⟨String.ofList name, String.ofList (Text.join [' '] rest), url⟩

/-- The function on a line without bars: the word in front of its address. -/
def listedOnLine? (line : Text) (url : String) : Option Listed :=
  ((namedUrlPattern.search? (.start line)).bind (·.part? "name")).map fun name =>
    ⟨String.ofList name, "https", some url⟩

/-- The function on a stripped line, if there is one. -/
def listed? (line : Text) : Option Listed :=
  let url := (urlPattern.search? (.start line)).map fun m => String.ofList m.text
  if line.any isBar then listedInRow? line url
  else match url with
    | some u => listedOnLine? line u
    | none => none

/-- Of functions with the same name the first one counts. -/
def distinctNames (seen : List String) : List Listed → List Listed
  | [] => []
  | f :: rest =>
    if f.name ∈ seen then distinctNames seen rest else f :: distinctNames (f.name :: seen) rest

/-- The functions that a printed list names. -/
def readListing (output : String) : List Listed :=
  distinctNames [] ((Text.wideLines output.toList).filterMap fun line => listed? (Text.strip line))

/-- Trigger kinds by words of a trigger's description; the first word found counts. -/
def triggerWords : List (String × TriggerKind) :=
  [("callable", .callable), ("firestore", .documentUpdate), ("document", .documentUpdate),
    ("auth", .identityCreate), ("user", .identityCreate), ("storage", .blobFinalize),
    ("object", .blobFinalize), ("schedule", .timeSchedule), ("pubsub", .queueMessage),
    ("topic", .queueMessage), ("https", .http), ("http", .http)]

/-- The kind of a group of triggers, for what the description mentions. -/
def refineKind (kind : TriggerKind) (mentions : String → Bool) : TriggerKind :=
  if kind.isDocument && mentions "create" then .documentCreate
  else if kind.isDocument && mentions "delete" then .documentDelete
  else if kind.isIdentity && mentions "delete" then .identityDelete
  else if kind.isBlob && mentions "delete" then .blobDelete
  else kind

/-- The kind of trigger that a description names. -/
def classifyTrigger (description : String) : TriggerKind :=
  let lowered := Text.lowerLatin description.toList
  let mentions (word : String) : Bool := Text.occursIn word.toList lowered
  match triggerWords.find? fun w => mentions w.1 with
  | some (_, kind) => refineKind kind mentions
  | none => .http

theorem mem_distinctNames {seen : List String} {fs : List Listed} {f : Listed}
    (h : f ∈ distinctNames seen fs) : f ∈ fs ∧ f.name ∉ seen := by
  induction fs generalizing seen with
  | nil => cases h
  | cons a r ih =>
    unfold distinctNames at h
    split at h
    · exact ⟨List.mem_cons_of_mem _ (ih h).1, (ih h).2⟩
    · rename_i ha
      rcases List.mem_cons.1 h with rfl | h
      · exact ⟨List.mem_cons_self .., ha⟩
      · obtain ⟨h1, h2⟩ := ih h
        exact ⟨List.mem_cons_of_mem _ h1, fun h' => h2 (List.mem_cons_of_mem _ h')⟩

/-- No name is listed twice. -/
theorem nodup_distinctNames (seen : List String) (fs : List Listed) :
    ((distinctNames seen fs).map Listed.name).Nodup := by
  induction fs generalizing seen with
  | nil => simp [distinctNames]
  | cons a r ih =>
    unfold distinctNames
    split
    · exact ih seen
    · rw [List.map_cons, List.nodup_cons]
      refine ⟨fun h => ?_, ih _⟩
      obtain ⟨f, hf, hn⟩ := List.mem_map.1 h
      exact (mem_distinctNames hf).2 (hn ▸ List.mem_cons_self ..)

end BackendMigration.Inventory
