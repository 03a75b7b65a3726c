import BackendMigration.Adaptation.Rule

/-! Adapting a function body, and the marks for what a person still has to look at. -/
namespace BackendMigration.Adaptation

/-- The start of a mark. -/
def reviewMarker : Text := "// MIGRATION_REVIEW".toList

/-- Not after a word character or a point. -/
def freestanding (name : String) : Pattern :=
  .concat [.notAfter (.union .word (.only '.')), .text name, .blanks, .text "."]

/-- Constructs that no rule converts, each with the reason it needs review. -/
def residuals : List (Pattern × String) :=
  [(freestanding "admin", "Firebase Admin SDK call left unconverted"),
    (freestanding "functions", "Firebase Functions API left unconverted"),
    (.text "firebase-functions", "firebase-functions import left in place"),
    (.concat [.wordEdge, .text "FieldValue", .blanks, .text "."],
      "Firestore FieldValue sentinel has no direct equivalent"),
    (.concat [.text ".onSnapshot", .opening],
      "Realtime listener needs a Supabase channel subscription"),
    (.concat [.wordEdge, .text "runTransaction", .opening],
      "Firestore transaction needs a database function or RPC"),
    (.concat [.text ".batch", emptyCall],
      "Firestore batched write needs a bulk insert or RPC")]

/-- The reasons for review that a text gives, in the order of the table. -/
def reasons (t : Text) : List String :=
  (residuals.filter fun r => r.1.occursIn t).map (·.2)

/-- The line that states a reason. -/
def markerLine (reason : String) : Text := reviewMarker ++ ": ".toList ++ reason.toList ++ ['\n']

/-- Apply rules one after another. -/
def applyAll (rules : List Rule) (t : Text) : Text := rules.foldl (fun t rule => rule.apply t) t

/-- Adapt a body: apply the rules, then put a line for each reason for review in front. -/
def adapt (rules : List Rule) (body : Text) : Text :=
  let t := applyAll rules body
  (reasons t).flatMap markerLine ++ t

/-- The text carries a mark. -/
def needsReview (t : Text) : Bool := Text.occursIn reviewMarker t

/-- The rules that change a body, each with the text after it. -/
def steps : List Rule → Text → List (String × Text)
  | [], _ => []
  | rule :: rest, t =>
    let t' := rule.apply t
    if t' = t then steps rest t else (rule.name, t') :: steps rest t'

/-- A body that gives no reason for review gets no mark. -/
theorem adapt_of_no_reasons {rules : List Rule} {body : Text}
    (h : reasons (applyAll rules body) = []) : adapt rules body = applyAll rules body := by
  simp [adapt, h]

end BackendMigration.Adaptation
