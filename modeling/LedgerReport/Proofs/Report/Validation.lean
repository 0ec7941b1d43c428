import LedgerReport.Proofs.Expression.Stop
import LedgerReport.Proofs.Report.Flaws
import LedgerReport.Proofs.Report.Order
/-!
The validation of a definition against its acceptance.

A definition is accepted if it can be read and the report passes its checks. Its validation tells
this, with the error that stands in the way, unless the reading of a number, a pattern or an
expression in it stops: such an error is no failure of the report, and the validation fails with it.
-/

set_option autoImplicit false

namespace LedgerReport

namespace Report

/-- The error that the reading of an expression stops with although it is no fault of its text. -/
def expressionStop? (expression : String) : Option Error :=
  match Node.read expression with
  | .error (.notWhole digits) => some (.notWhole digits)
  | _ => none

/-- The error that a filter stops the collecting of issues with: that of its first such pattern. -/
def filterStop? (filter : Entries) : Option Error :=
  (Filter.patterns filter).findSome? Filter.patternStop?

def contentStop? : Content → Option Error
  | .category filter => filterStop? filter
  | .calculated expression => expressionStop? expression
  | _ => none

/-- The error that a report stops the collecting of its issues with, that of a variable if there is
one, else that of a row. -/
def stop? (r : Report) : Option Error :=
  (r.vars.findSome? fun v => filterStop? v.2.filter).or
    (r.layout.findSome? fun i => contentStop? i.content)

def accept (definition : Value) : Except Error Unit := do
  let r ← ofDefinition definition
  r.check.outcome

/-- Whether reading or checking a definition comes to an error that is no failure of the report: a
whole number in its JSON text has too many digits, or something in the report that it gives stops
the collecting of issues. -/
def Stops (definition : Value) (e : Error) : Prop :=
  (∃ text digits, definition = .text text ∧ Json.read text = .error (.overlong digits) ∧
    e = .notWhole digits) ∨
  ∃ r, ofDefinition definition = .ok r ∧ r.stop? = some e

variable {definition : Value} {e : Error}

end Report

namespace Validation

end Validation
end LedgerReport
