import BackendMigration.Recognition.Catalogue

/-! Ordered collections of recognition rules. -/
namespace BackendMigration

/-- Rules in order; of equally specific overlapping matches the earlier rule's counts. -/
structure Registry where
  rules : List RecognitionRule
  deriving DecidableEq, Repr

namespace Registry

/-- All known rules. -/
def standard : Registry := ⟨Recognition.catalogue⟩

/-- A rule of this name is registered already. -/
structure Taken where
  name : String
  deriving DecidableEq, Repr

def Taken.message (t : Taken) : String := "Recognition rule already registered: " ++ t.name

def names (r : Registry) : List String := r.rules.map (·.name)

def get? (r : Registry) (name : String) : Option RecognitionRule :=
  r.rules.find? (·.name == name)

/-- The position of a rule. -/
def indexOf? (r : Registry) (rule : RecognitionRule) : Option Nat := r.rules.idxOf? rule

/-- Add a rule at the end, under a new name. -/
def register (r : Registry) (rule : RecognitionRule) : Except Taken Registry :=
  if rule.name ∈ r.names then .error ⟨rule.name⟩ else .ok ⟨r.rules ++ [rule]⟩

/-- The rules by which to scan: an empty registry stands for all known rules. -/
def orStandard (r : Registry) : Registry := if r.rules.isEmpty then standard else r

/-- Registering keeps names apart. -/
theorem nodup_names_register {r r' : Registry} {rule : RecognitionRule}
    (h : r.names.Nodup) (hr : r.register rule = .ok r') : r'.names.Nodup := by
  unfold register at hr
  split at hr
  · cases hr
  · rename_i hn
    cases hr
    simp only [names, List.map_append, List.map_cons, List.map_nil]
    exact List.nodup_append.2 ⟨h, by simp, by simp only [List.mem_singleton]; rintro a ha b rfl rfl; exact hn ha⟩

end Registry
end BackendMigration
