import BackendMigration.Adaptation.Call

/-! The rules that turn calls of the old client into calls of the new one. -/
namespace BackendMigration.Adaptation

/-- What a rule does. -/
inductive Action where
  | substitute (p : Pattern) (new : String)
  | document
  | filter
  | statusResponse (method : ResponseMethod)
  | response (method : ResponseMethod)
  deriving DecidableEq, Repr

/-- A rule with its name. -/
structure Rule where
  name : String
  action : Action
  deriving DecidableEq, Repr

/-- The edit of an action at a place. -/
def Action.edit : Action → Cursor → Option Edit
  | substitute p new => substitution p new.toList
  | document => callEdit documentCall convertDocument
  | filter => callEdit filterCall convertFilter
  | statusResponse method => statusEdit method
  | response method => callEdit responseCall (convertResponse method)

/-- Apply a rule to a whole text. -/
def Rule.apply (rule : Rule) (t : Text) : Text := edited rule.action.edit t

/-- A call without arguments. -/
def emptyCall : Pattern := .concat [.opening, .blanks, .text ")"]

/-- A service of the administration client, or the function that returns it. -/
def serviceClient (service getter : String) : Pattern :=
  .choice
    [.concat [.wordEdge, .text "admin", .point, .text service, emptyCall],
      .concat [.wordEdge, .text getter, emptyCall]]

/-- The user id read from an object. -/
def userId (owner : List Pattern) : Pattern :=
  .concat ([.wordEdge] ++ owner ++
    [.blanks, .optional (.text "?"), .text ".", .blanks, .text "uid", .wordEdge])

/-- All rules, in the order in which they apply. -/
def Rule.all : List Rule :=
  [⟨"server_timestamp", .substitute
      (.concat [.optional (.concat [.wordEdge, .text "admin", .point, .text "firestore", .point]),
        .wordEdge, .text "FieldValue", .point, .text "serverTimestamp", emptyCall])
      "new Date().toISOString()"⟩,
    ⟨"firestore_client", .substitute (serviceClient "firestore" "getFirestore") "supabaseClient"⟩,
    ⟨"auth_client", .substitute (serviceClient "auth" "getAuth") "supabaseClient.auth.admin"⟩,
    ⟨"storage_client", .substitute (serviceClient "storage" "getStorage")
      "supabaseClient.storage"⟩,
    ⟨"collection", .substitute (.concat [.text ".collection", .opening]) ".from("⟩,
    ⟨"doc", .document⟩,
    ⟨"where", .filter⟩,
    ⟨"get", .substitute (.concat [.text ".get", emptyCall]) ""⟩,
    ⟨"data", .substitute (.concat [.text ".data", emptyCall]) ""⟩,
    ⟨"set", .substitute (.concat [.text ".set", .opening]) ".upsert("⟩,
    ⟨"context_uid", .substitute (userId [.text "context", .point, .text "auth"]) "user.id"⟩,
    ⟨"user_uid", .substitute (userId [.text "user"]) "user.id"⟩,
    ⟨"status_json", .statusResponse .json⟩,
    ⟨"status_send", .statusResponse .send⟩,
    ⟨"json", .response .json⟩,
    ⟨"send", .response .send⟩]

/-- The rule of a name. -/
def Rule.named? (name : String) : Option Rule := Rule.all.find? (·.name == name)

/-- Each name stands for one rule. -/
theorem Rule.names_nodup : (Rule.all.map Rule.name).Nodup := by decide

end BackendMigration.Adaptation
