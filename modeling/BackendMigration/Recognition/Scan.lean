import BackendMigration.Recognition.Selection
import BackendMigration.Source.Body
import BackendMigration.Text.Search

/-! Finding the functions that a source text declares. -/
namespace BackendMigration.Recognition

open Pattern

/-- The least size of a block taken when no handler can be found. -/
def fallbackBlockSize : Nat := 50

/-- A name of a variable. -/
def identifier : Pattern :=
  concat
    [one (.union (.between 'A' 'Z') (.union (.between 'a' 'z') (.oneOf "_$"))),
      many (one (.union .word (.only '$')))]

/-- `async` and white space, or nothing. -/
def optionalAsync : Pattern := optional (concat [text "async", someBlanks])

/-- A binding keyword and white space. -/
def bindingKeyword : Pattern :=
  concat [wordEdge, choice [text "const", text "let", text "var"], someBlanks]

/-- A function declared by keyword, up to its name. -/
def functionKeyword : Pattern := concat [wordEdge, optionalAsync, text "function", someBlanks]

/-- The ways in which a function of a name can be declared, up to its block. -/
def declarationsOf (name : String) : List Pattern :=
  [concat [functionKeyword, text name, blanks, flatArguments, blanks, before (.only '\x7b')],
    concat
      [bindingKeyword, text name, blanks, text "=", blanks, optionalAsync,
        choice
          [concat [text "function", wordEdge, many (one (.noneOf "(")), flatArguments],
            concat [flatArguments, blanks, text "=>"],
            concat [word, blanks, text "=>"]],
        blanks, before (.only '\x7b')]]

/-- The ways in which the handler of a function can be declared, up to its block. -/
def handlersOf (name : String) : List Pattern :=
  let handlerName := concat [text name, many (one .word), text "Handler"]
  [concat
      [bindingKeyword, handlerName, blanks, text "=", blanks, optionalAsync,
        choice [flatArguments, word], blanks, text "=>"],
    concat [functionKeyword, handlerName, blanks, flatArguments]]

/-- The first match of the first pattern that has one. -/
def firstOf (patterns : List Pattern) (t : Text) : Option Match :=
  patterns.findSome? fun p => p.search? (.start t)

/-- The block of a function declared under a name; empty if there is none. -/
def namedFunctionBody (t : Text) (name : Text) : Text :=
  match firstOf (declarationsOf (String.ofList name)) t with
  | some m => Source.extractBlock t m.stop
  | none => []

/-- The body of the handler that is the last argument of the matched call: a function expression,
or the name of a function of the same text. -/
def callHandlerBody (t : Text) (m : Match) : Text :=
  match Source.lastOpen? m.text with
  | none => []
  | some opened =>
    match (Source.argumentSpans? t (m.start + opened)).bind List.getLast? with
    | none => []
    | some last =>
      let handler := Text.strip (last.slice t)
      if (identifier.matchAll? handler).isSome then namedFunctionBody t handler
      else Source.functionBody t last

/-- The first block after a match opens before any other declaration starts. -/
def isCallBody (registry : Registry) (t : Text) (m : Match) : Bool :=
  let after := Source.cursorAt t m.stop
  match Text.indexOf? ['\x7b'] after.rest with
  | none => false
  | some blanksBefore =>
    registry.rules.all fun rule =>
      match rule.pattern.search? after with
      | some following => m.stop + blanksBefore ≤ following.start
      | none => true

/-- The body of the function that a match declares. -/
def locateBody (registry : Registry) (t : Text) (m : Match) (rule : RecognitionRule)
    (name : String) : Text :=
  match rule.style.bodySource with
  | .inlined => callHandlerBody t m
  | .handler =>
    let handled := match firstOf (handlersOf name) t with
      | some h => Source.extractBlock t h.stop
      | none => []
    if !handled.isEmpty then handled
    else
      let inlined := Source.extractBlock t m.stop
      if minBodyLength < inlined.length && isCallBody registry t m then inlined
      else Source.firstBlockOfSize fallbackBlockSize t

/-- The record of a candidate. -/
def Candidate.record (registry : Registry) (t : Text) (filePath : String) (c : Candidate) :
    FunctionRecord :=
  let declared := c.rule.resolve c.found
  let name := declared.name.getD ""
  { declared.detail with
    name := name
    kind := declared.kind
    body := String.ofList (locateBody registry t c.found c.rule name)
    sourceFile := filePath
    rawMatch := String.ofList c.found.text
    rule := c.rule.name
    span := ⟨c.found.start, c.found.stop⟩ }

/-- The functions that a text declares, in order; those without a meaningful body are left out. -/
def scan (registry : Registry) (t : Text) (filePath : String) : List FunctionRecord :=
  let registry := registry.orStandard
  ((selected registry t).map (Candidate.record registry t filePath)).filter
    (·.hasMeaningfulBody)

/-- Every function found has a meaningful body. -/
theorem hasMeaningfulBody_of_mem_scan {registry : Registry} {t : Text} {filePath : String}
    {r : FunctionRecord} (h : r ∈ scan registry t filePath) : r.hasMeaningfulBody = true := by
  simp only [scan, List.mem_filter] at h
  exact h.2

end BackendMigration.Recognition
