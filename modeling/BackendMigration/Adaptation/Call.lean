import BackendMigration.Adaptation.Segment
import BackendMigration.Source.Arguments
import BackendMigration.Text.Search

/-! Replacing whole calls, from the name to the parenthesis that closes the arguments. -/
namespace BackendMigration.Adaptation

/-- An argument list: the text between its parentheses, and the number of characters from the
opening one to after the closing one. -/
structure ArgumentList where
  inner : Text
  length : Nat
  deriving DecidableEq, Repr

/-- The argument list that a text opens with; none if it never closes. -/
def argumentList? : Text → Option ArgumentList
  | '(' :: r => (Source.closing? .parentheses 0 r).map fun n => ⟨r.take (n - 1), n + 1⟩
  | _ => none

/-- The text from the last character of a match on. -/
def fromLast (m : Match) (c : Cursor) : Text := c.rest.drop (m.stop - m.start - 1)

/-- Edit a call that the pattern finds, up to its opening parenthesis. The call stays as it is
if its arguments never close or `convert` declines. -/
def callEdit (call : Pattern) (convert : List Text → Match → Option Text) (c : Cursor) :
    Option Edit :=
  (call.matchAt? c).map fun m =>
    let length := m.stop - m.start
    match argumentList? (fromLast m c) with
    | none => .keep length
    | some args =>
      match convert (Source.argumentTexts args.inner) m with
      | none => .keep length
      | some new => .replace (length - 1 + args.length) new

/-- The call of a document by its id. -/
def documentCall : Pattern := .concat [.text ".doc", .opening]

/-- A document reference becomes a selection of the one row with that id. -/
def convertDocument (arguments : List Text) (_ : Match) : Option Text :=
  match arguments with
  | [id] =>
    if id.isEmpty then none else some (".select().eq('id', ".toList ++ id ++ ").single()".toList)
  | _ => none

/-- The call of a filter. -/
def filterCall : Pattern := .concat [.text ".where", .opening]

/-- Comparison operators of filters, and the filter methods for them. -/
def filterMethods : List (String × String) :=
  [("==", "eq"), ("===", "eq"), ("!=", "neq"), (">", "gt"), (">=", "gte"), ("<", "lt"),
    ("<=", "lte"), ("in", "in"), ("array-contains", "contains")]

/-- A filter becomes a call of the method for its operator. -/
def convertFilter (arguments : List Text) (_ : Match) : Option Text :=
  match arguments with
  | [field, operator, value] =>
    let name := String.ofList (Text.trim Source.isQuote operator)
    (filterMethods.lookup name).map fun method =>
      ".".toList ++ method.toList ++ "(".toList ++ field ++ ", ".toList ++ value ++ ")".toList
  | _ => none

/-- The two ways to answer a request. -/
inductive ResponseMethod where
  | json
  | send
  deriving DecidableEq, Repr

def ResponseMethod.name : ResponseMethod → String
  | json => "json"
  | send => "send"

/-- The name of either method, kept as a part. -/
def anyMethod : Pattern := .part "method" (.choice [.text "json", .text "send"])

/-- The response object, with a `return` before it if there is one. -/
def responseObject : Pattern :=
  .concat [.optional (.concat [.wordEdge, .text "return", .someBlanks]), .wordEdge, .text "res",
    .point]

/-- The call that sets the status of a response. -/
def statusCall : Pattern := .concat [responseObject, .text "status", .opening]

/-- The call that answers. -/
def responseCall : Pattern := .concat [responseObject, anyMethod, .opening]

/-- The call that answers, on what another call returned. -/
def chainedCall : Pattern := .concat [.point, anyMethod, .opening]

def jsonHeaders : Text :=
  "\x7b ...corsHeaders, 'Content-Type': 'application/json' \x7d".toList

/-- The statement that answers with a payload. -/
def answer (method : ResponseMethod) (payload : Text) : Text :=
  match method with
  | .json =>
    "return new Response(JSON.stringify(".toList ++ payload ++ "), \x7b headers: ".toList ++
      jsonHeaders ++ " \x7d)".toList
  | .send => "return new Response(".toList ++ payload ++ ")".toList

/-- The statement that answers with a status and a payload. -/
def answerWithStatus (method : ResponseMethod) (status payload : Text) : Text :=
  match method with
  | .json =>
    "return new Response(JSON.stringify(".toList ++ payload ++ "), \x7b status: ".toList ++
      status ++ ", headers: ".toList ++ jsonHeaders ++ " \x7d)".toList
  | .send =>
    "return new Response(".toList ++ payload ++ ", \x7b status: ".toList ++ status ++
      " \x7d)".toList

/-- An answer with a status becomes one statement; the status call and the answer call on it both
have to close. -/
def statusEdit (method : ResponseMethod) (c : Cursor) : Option Edit :=
  (statusCall.matchAt? c).map fun m =>
    let length := m.stop - m.start
    let declined := Edit.keep length
    match argumentList? (fromLast m c) with
    | none => declined
    | some status =>
      let after := c.advance (length - 1 + status.length)
      match chainedCall.matchAt? after with
      | none => declined
      | some chained =>
        if chained.part? "method" ≠ some method.name.toList then declined
        else match argumentList? (fromLast chained after) with
          | none => declined
          | some payload =>
            .replace (length - 1 + status.length + (chained.stop - chained.start - 1) +
                payload.length)
              (answerWithStatus method (Text.strip status.inner) (Text.strip payload.inner))

/-- An answer without a status becomes one statement. -/
def convertResponse (method : ResponseMethod) (arguments : List Text) (m : Match) : Option Text :=
  if m.part? "method" = some method.name.toList then
    some (answer method (Text.join ", ".toList arguments))
  else none

end BackendMigration.Adaptation
