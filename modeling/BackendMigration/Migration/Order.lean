import BackendMigration.Document.Encoding
import BackendMigration.Document.Setting

/-! What a migration is asked to do. -/
namespace BackendMigration.Migration

open Document (Value)

/-- A migration as it is asked for: where the functions are, where the edge functions go, the name
of the report and the command-line client of projects. -/
structure Order where
  sourceDir : Value := .null
  project : Value := .null
  outputDir : Value := .text "./supabase/functions"
  reportName : Value := .text "migration_report.json"
  program : Value := .text "firebase"
  deriving Repr

namespace Order

/-- Read an order; keys that are not there have their defaults. -/
def ofEntries (data : Document.Entries) : Order :=
  let standard : Order := {}
  { sourceDir := data.setting "source_dir" standard.sourceDir
    project := data.setting "firebase_project" standard.project
    outputDir := data.setting "output_dir" standard.outputDir
    reportName := data.setting "report_filename" standard.reportName
    program := data.setting "firebase_cli" standard.program }

/-- The JSON form of an order. -/
def toJson (o : Order) : Json :=
  .obj
    [("source_dir", o.sourceDir.shown), ("firebase_project", o.project.shown),
      ("output_dir", o.outputDir.shown), ("report_filename", o.reportName.shown),
      ("firebase_cli", o.program.shown)]

/-- Where the functions are looked for. -/
def source (o : Order) : Value :=
  if !o.sourceDir.isFalsy then o.sourceDir
  else if !o.project.isFalsy then .text ("firebase:" ++ o.project.spelled)
  else .text ""

end Order

/-- What is wrong with an order. -/
inductive OrderError where
  | noSource
  | twoSources
  | notFound (directory : String)
  deriving DecidableEq, Repr

def OrderError.message : OrderError → String
  | noSource => "Either a source directory or a Firebase project must be specified"
  | twoSources => "Specify only one of a source directory or a Firebase project"
  | notFound directory => "Source directory not found: " ++ directory

/-- What is wrong with an order, given the files. -/
def Order.errors (o : Order) (t : File.Tree) : Except Document.PlaceFault (List OrderError) :=
  match o.sourceDir.isFalsy, o.project.isFalsy with
  | true, true => .ok [.noSource]
  | false, false => .ok [.twoSources]
  | false, true =>
    (o.sourceDir.namesDirectory t).map fun found =>
      if found then [] else [.notFound o.sourceDir.spelled]
  | true, false => .ok []

/-- An order without errors names exactly one source. -/
theorem Order.one_source_of_no_errors {o : Order} {t : File.Tree} (h : o.errors t = .ok []) :
    o.sourceDir.isFalsy ≠ o.project.isFalsy := by
  unfold Order.errors at h
  split at h <;> simp_all

end BackendMigration.Migration
