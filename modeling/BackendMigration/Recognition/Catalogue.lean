import BackendMigration.Recognition.Rule

/-! The known ways of declaring a function. -/
namespace BackendMigration.Recognition

open Pattern

/-- The name of an exported binding, up to its value. -/
def binding : Pattern :=
  concat
    [choice
      [concat [wordEdge, text "exports."],
        concat [wordEdge, text "export", someBlanks, choice [text "const", text "let", text "var"],
          someBlanks]],
      part "name" word, blanks, text "=", blanks]

/-- The first-generation functions object, with any region and run options. -/
def functionsObject : Pattern :=
  concat
    [wordEdge, text "functions",
      many (concat [point, choice [text "region", text "runWith"], blanks, flatArguments]), point]

/-- A word, a point and a word, up to an opening parenthesis. -/
def memberCall (owner name : String) : Pattern := concat [text owner, point, text name, opening]

/-- A member's call on what comes before, up to its opening parenthesis. -/
def thenCall (name : Pattern) : Pattern := concat [point, name, opening]

/-- One of several event names. -/
def eventPart (names : List String) : Pattern := part "event" (choice (names.map text))

/-- A call whose only argument is a quoted text, kept under a name. -/
def quotedCall (name partName : String) : Pattern :=
  concat [text name, opening, blanks, quotedPart partName unquoted, blanks, text ")"]

/-- The parenthesis of a call, and at the start of its first argument a quoted text, alone or as
the first field of an options object. -/
def firstQuoted (field partName : String) : Pattern :=
  concat
    [opening, blanks, optional (concat [text "\x7b", blanks, text field, blanks, text ":", blanks]),
      quotedPart partName unquoted]

/-- A further argument that may be left out. -/
def furtherArgument (p : Pattern) : Pattern := optional (concat [blanks, text ",", blanks, p])

/-- An event name as a factory takes it. -/
def quotedEvent : Pattern := quotedPart "event" (concat [text "on", word])

/-- The call of a factory up to the function's name. -/
def factoryCall (factory : String) : Pattern :=
  concat [wordEdge, text factory, opening, blanks, quotedPart "name" word]

/-- An exported call of a factory up to its opening parenthesis. -/
def exportedFactoryCall (factory : String) : Pattern :=
  concat [binding, text factory, opening]

/-- The quoted name that an exported factory call may repeat. -/
def repeatedName : Pattern :=
  optional (concat [quoteMark, word, quoteMark, blanks, text ",", blanks])

/-- The rules, in the order in which ties are broken. -/
def catalogue : List RecognitionRule :=
  [{ name := "http_direct", family := .http,
      pattern := concat [binding, functionsObject, memberCall "https" "onRequest"] },
    { name := "callable_direct", family := .callable,
      pattern := concat [binding, functionsObject, memberCall "https" "onCall"] },
    { name := "document_direct", family := .document,
      pattern := concat
        [binding, functionsObject, text "firestore", point, quotedCall "document" "path",
          thenCall (eventPart ["onCreate", "onUpdate", "onDelete", "onWrite"])] },
    { name := "identity_direct", family := .identity,
      pattern := concat
        [binding, functionsObject, memberCall "auth" "user", blanks, text ")",
          thenCall (eventPart ["onCreate", "onDelete"])] },
    { name := "blob_direct", family := .blob,
      pattern := concat
        [binding, functionsObject, text "storage", point,
          optional (concat [text "bucket", blanks, flatArguments, point]),
          text "object", opening, blanks, text ")",
          thenCall (eventPart ["onFinalize", "onDelete", "onArchive", "onMetadataUpdate"])] },
    { name := "queue_direct", family := .queue,
      pattern := concat
        [binding, functionsObject, text "pubsub", point, quotedCall "topic" "topic",
          thenCall (text "onPublish")] },
    { name := "schedule_direct", family := .schedule,
      pattern := concat
        [binding, functionsObject, text "pubsub", point, quotedCall "schedule" "schedule",
          optional (concat [point, text "timeZone", blanks, flatArguments]),
          thenCall (text "onRun")] },
    { name := "http_v2", family := .http,
      pattern := concat
        [binding, optional (concat [text "https", point]), text "onRequest", opening] },
    { name := "callable_v2", family := .callable,
      pattern := concat
        [binding, optional (concat [text "https", point]), text "onCall", opening] },
    { name := "document_v2", family := .document,
      pattern := concat
        [binding, text "onDocument", eventPart ["Created", "Updated", "Deleted", "Written"],
          firstQuoted "document" "path"] },
    { name := "blob_v2", family := .blob,
      pattern := concat
        [binding, text "onObject",
          eventPart ["Finalized", "Deleted", "Archived", "MetadataUpdated"], opening] },
    { name := "queue_v2", family := .queue,
      pattern := concat [binding, text "onMessagePublished", firstQuoted "topic" "topic"] },
    { name := "schedule_v2", family := .schedule,
      pattern := concat [binding, text "onSchedule", firstQuoted "schedule" "schedule"] },
    { name := "http_factory", family := .http, style := .factory,
      pattern := factoryCall "createHttpFunction" },
    { name := "callable_factory", family := .callable, style := .factory,
      pattern := factoryCall "createCallableFunction" },
    { name := "document_factory", family := .document, style := .factory,
      pattern := concat
        [factoryCall "createFirestoreFunction", furtherArgument (quotedPart "path" unquoted),
          furtherArgument quotedEvent] },
    { name := "schedule_factory", family := .schedule, style := .factory,
      pattern := concat
        [factoryCall "createScheduledFunction",
          furtherArgument (quotedPart "schedule" unquoted)] },
    { name := "http_exported_factory", family := .http, style := .exportedFactory,
      pattern := exportedFactoryCall "createHttpFunction" },
    { name := "callable_exported_factory", family := .callable, style := .exportedFactory,
      pattern := exportedFactoryCall "createCallableFunction" },
    { name := "document_exported_factory", family := .document, style := .exportedFactory,
      pattern := concat
        [exportedFactoryCall "createFirestoreFunction", blanks, repeatedName,
          optional (quotedPart "path" unquoted), furtherArgument quotedEvent] },
    { name := "schedule_exported_factory", family := .schedule, style := .exportedFactory,
      pattern := concat
        [exportedFactoryCall "createScheduledFunction", blanks, repeatedName,
          optional (quotedPart "schedule" unquoted)] }]

/-- The rule of a name. -/
def catalogued? (name : String) : Option RecognitionRule := catalogue.find? (·.name == name)

end BackendMigration.Recognition
