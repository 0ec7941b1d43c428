import LedgerReport.Proofs.FileName
import LedgerReport.Proofs.Report.Validation
import LedgerReport.Proofs.Statement.Answer
import LedgerReport.Proofs.Statement.Session
/-!
Which files the commands accept.

An evaluation loads a report from its file and checks it. A validation reads the file on its own,
and validates whatever value stands in it. Both accept the same files, except that a validation
takes a value that is a text for another definition, which the loading of a report refuses.
-/

set_option autoImplicit false

namespace LedgerReport

namespace Report
variable {files : Files} {name : String}

def accepted (files : Files) (name : String) : Except Error Report := do
  let r ← ofFile files name
  r.check.outcome
  return r

end Report

namespace Command
variable {files : Files} {name : String} {s : Settings}

structure Inputs where
  data : Dataset
  base : Selector
  comparison : Option Selector
  engine : Engine

def Inputs.statement (i : Inputs) (r : Report) : Except Error Statement := do
  let rows ← (i.engine.evaluateChecked r i.data i.base i.comparison).outcome
  return .ofRows r i.data i.base i.comparison rows

def quoted : Files :=
  [("report.json", "\"\x7b\\\"reportId\\\":\\\"q\\\",\\\"name\\\":\\\"Q\\\"," ++
    "\\\"version\\\":\\\"1.0.0\\\",\\\"statementType\\\":\\\"income\\\"," ++
    "\\\"layout\\\":[\x7b\\\"order\\\":1,\\\"type\\\":\\\"spacer\\\"\x7d]\x7d\"")]

theorem runArguments_quoted_exit_eq_zero :
    (runArguments [] quoted "" ["validate", "report.json"]).exit = 0 ∧
      ∀ r, Report.accepted quoted "report.json" ≠ .ok r := by
  have hboth : ((runArguments [] quoted "" ["validate", "report.json"]).exit == 0 &&
      !(Report.accepted quoted "report.json").toBool) = true := by
    decide +kernel
  simp only [Bool.and_eq_true, beq_iff_eq, Bool.not_eq_true'] at hboth
  refine ⟨hboth.1, fun r hr => ?_⟩
  rw [hr] at hboth
  cases hboth.2

end Command
end LedgerReport
