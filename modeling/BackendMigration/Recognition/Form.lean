import BackendMigration.Json.Basic
import BackendMigration.Recognition.Rule

/-! The JSON form of recognition rules. -/
namespace BackendMigration

/-- The JSON form of a rule, without its pattern. -/
def RecognitionRule.toJson (r : RecognitionRule) : Json :=
  .obj
    [("name", .str r.name), ("family", .str r.family.name), ("style", .str r.style.name),
      ("specificity", .int r.style.specificity), ("body_strategy", .str r.style.bodySource.name)]

end BackendMigration
