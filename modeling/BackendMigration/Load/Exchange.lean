import BackendMigration.Json.Basic

/-! Requests over the network and what they meet. -/
namespace BackendMigration.Load

inductive Method where
  | get
  | post
  deriving DecidableEq, Repr

def Method.name : Method → String
  | get => "GET"
  | post => "POST"

/-- A request; one that sends nothing has neither parameters nor data. -/
structure Request where
  method : Method
  url : String
  headers : List (String × Json)
  params : Option (List (String × Json))
  data : Option String
  /-- The seconds to wait for an answer. -/
  timeout : Json
  deriving DecidableEq, Repr

/-- The JSON form of a request. -/
def Request.toJson (r : Request) : Json :=
  .obj
    [("method", .str r.method.name), ("url", .str r.url), ("headers", .obj r.headers),
      ("params", (r.params.map .obj).getD .null), ("data", Json.ofText? r.data),
      ("timeout", r.timeout)]

/-- Why a request has no answer: it could not be made or was not answered, or something else went
wrong on the way. -/
inductive Fault where
  | request (message : String)
  | other (kind message : String)
  deriving DecidableEq, Repr

def Fault.message : Fault → String
  | request m => m
  | other _ m => m

/-- What a request meets. -/
inductive Reply where
  | answer (status : Int) (text : String)
  | fault (f : Fault)
  deriving DecidableEq, Repr

/-- What further requests meet once all replies are used: the record is created. -/
def Reply.created : Reply := .answer 201 ""

/-- A connection: the replies to come, and the requests made, the last one first. -/
structure Connection where
  replies : List Reply
  requests : List Request := []
  deriving DecidableEq, Repr

/-- Make a request. -/
def Connection.send (c : Connection) (r : Request) : Reply × Connection :=
  match c.replies with
  | [] => (.created, { c with requests := r :: c.requests })
  | reply :: rest => (reply, ⟨rest, r :: c.requests⟩)

/-- A request is made once, whatever it meets. -/
@[simp] theorem Connection.requests_send (c : Connection) (r : Request) :
    (c.send r).2.requests = r :: c.requests := by
  unfold send
  split <;> rfl

/-- How often and after which answers a request is made again: `factor` times a power of two are
the seconds in between. -/
structure RetryPolicy where
  total : Nat
  factor : Nat
  statuses : List Nat
  /-- The methods of such requests; without a list, all. -/
  methods : Option (List Method)
  deriving DecidableEq, Repr

/-- The JSON form of a policy, which all connections share. -/
def RetryPolicy.toJson (p : RetryPolicy) : Json :=
  .obj
    [("total", .int p.total), ("backoff_factor", .float (.ofRatio false p.factor 1)),
      ("status_forcelist", .arr (p.statuses.map fun n : Nat => Json.int n)), ("shared", .bool true),
      ("allowed_methods", (p.methods.map fun ms => .arr (ms.map fun m => Json.str m.name)).getD .null)]

/-- Three more times, when the server is busy or fails. -/
def retryPolicy : RetryPolicy := ⟨3, 2, [429, 500, 502, 503, 504], none⟩

end BackendMigration.Load
