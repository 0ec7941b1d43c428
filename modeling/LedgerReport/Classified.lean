import LedgerReport.Error
set_option autoImplicit false

namespace LedgerReport

structure Classified where
  category : Category
  severity : Severity
  message : String
  phase : Option String
  context : Entries

namespace Classified

def introduction? : Category → Option String
  | .circularDependency => some "The report contains a circular reference"
  | .forwardReference => some "A calculated row refers to a row that comes after it"
  | .insufficientPeriodData => some "Not enough periods in the data for the selected window"
  | _ => none

def userMessage (c : Classified) : String :=
  match introduction? c.category with
  | some introduction => introduction ++ ": " ++ c.message
  | none => c.message

/-- An error in a phase, with further context that takes precedence over its own. -/
def ofError (e : Error) (phase : Option String) (context : Entries) : Classified :=
  match e.failure? with
  | some f =>
    { category := f.category, severity := f.severity, message := f.message, phase,
      context := context.foldl (fun c entry => Entries.insert c entry.1 entry.2) f.context }
  | none =>
    { category := if e.isMalformed then .invalidDefinition else .unknownError
      severity := .high, message := e.message, phase, context }

def logOf (e : Error) (phase : Option String) : List String :=
  if e.failure?.isSome || e.isMalformed then []
  else
    let during := match phase with
      | some p => if p.isEmpty then "evaluation" else p
      | none => "evaluation"
    ["Unclassified error during " ++ during ++ ": " ++ e.message]

def toValue (c : Classified) : Value :=
  .ofFields [
    ("category", .text c.category.name),
    ("severity", .text c.severity.name),
    ("message", .text c.message),
    ("user_message", .text c.userMessage),
    ("evaluation_phase", .ofText? c.phase),
    ("context", .map c.context)]

end Classified
end LedgerReport
