import TemplateMessages.Catalogue.Catalogues
import TemplateMessages.Template.Error

/-!
# Extraction reports

A batch of files yields one report.  A file that cannot be read or understood
is an outcome of its own and stops nothing; the catalogues hold what the other
files yield.
-/

namespace TemplateMessages.Extraction

inductive ExtractionError where
  | unreadable (path : String)
  | template (path : String) (error : Template.TemplateError)
  | script (path : String)
  | unwalkable (path : String)
deriving DecidableEq, Repr

def ExtractionError.message : ExtractionError → String
  | .unreadable path => "Unable to read file: " ++ path
  | .template path error => "Unable to parse template " ++ path ++ ": " ++ error.message
  | .script path => "Unable to parse source file " ++ path
  | .unwalkable path => "Unable to walk " ++ path

inductive Result where
  | extracted (messages : Nat)
  | failed (error : ExtractionError)
deriving DecidableEq, Repr

/-- What happened to a file. -/
structure Outcome where
  path : String
  result : Result
deriving DecidableEq, Repr

structure Report where
  outcomes : List Outcome
  catalogues : Catalogues

namespace Report

def empty : Report := ⟨[], .empty⟩

/-- Adds the outcome of one file. -/
def record (report : Report) (path : String) (result : Except ExtractionError Catalogues) :
    Report :=
  match result with
  | .ok catalogues =>
      ⟨report.outcomes ++ [⟨path, .extracted catalogues.messageCount⟩],
        report.catalogues.merge catalogues⟩
  | .error error => ⟨report.outcomes ++ [⟨path, .failed error⟩], report.catalogues⟩

/-- The report of one batch and then another. -/
def merge (report later : Report) : Report :=
  ⟨report.outcomes ++ later.outcomes, report.catalogues.merge later.catalogues⟩

/-- The errors of the files that failed, in order. -/
def failures (report : Report) : List ExtractionError :=
  report.outcomes.filterMap fun outcome =>
    match outcome.result with
    | .failed error => some error
    | .extracted _ => none

end Report

end TemplateMessages.Extraction
