import LedgerReport.Document.Yaml
set_option autoImplicit false

namespace LedgerReport

inductive Category where
  | invalidDefinition
  | unknownFilterField
  | unknownAggregate
  | duplicateOrder
  | invalidSubtotalRange
  | expressionSyntax
  | undefinedReference
  | forwardReference
  | circularDependency
  | invalidPeriodSelector
  | insufficientPeriodData
  | configurationError
  | internalError
  | unknownError
  deriving DecidableEq, Repr

def Category.name : Category → String
  | .invalidDefinition => "INVALID_DEFINITION"
  | .unknownFilterField => "UNKNOWN_FILTER_FIELD"
  | .unknownAggregate => "UNKNOWN_AGGREGATE"
  | .duplicateOrder => "DUPLICATE_ORDER"
  | .invalidSubtotalRange => "INVALID_SUBTOTAL_RANGE"
  | .expressionSyntax => "EXPRESSION_SYNTAX"
  | .undefinedReference => "UNDEFINED_REFERENCE"
  | .forwardReference => "FORWARD_REFERENCE"
  | .circularDependency => "CIRCULAR_DEPENDENCY"
  | .invalidPeriodSelector => "INVALID_PERIOD_SELECTOR"
  | .insufficientPeriodData => "INSUFFICIENT_PERIOD_DATA"
  | .configurationError => "CONFIGURATION_ERROR"
  | .internalError => "INTERNAL_ERROR"
  | .unknownError => "UNKNOWN_ERROR"

def Category.all : List Category := [
  .invalidDefinition, .unknownFilterField, .unknownAggregate, .duplicateOrder,
  .invalidSubtotalRange, .expressionSyntax, .undefinedReference, .forwardReference,
  .circularDependency, .invalidPeriodSelector, .insufficientPeriodData, .configurationError,
  .internalError, .unknownError]

inductive Severity where
  | low
  | medium
  | high
  | critical
  deriving DecidableEq, Repr

def Severity.name : Severity → String
  | .low => "low"
  | .medium => "medium"
  | .high => "high"
  | .critical => "critical"

structure Issue where
  path : String
  message : String
  deriving DecidableEq, Repr

def Issue.text (i : Issue) : String :=
  if i.path.isEmpty then i.message else i.path ++ ": " ++ i.message

inductive ExpressionFault where
  | character (c : Char)
  | empty
  | unbalanced
  | token (text : String)
  | unfinished
  | unclosed
  | other (reason : String)
  deriving DecidableEq, Repr

def ExpressionFault.reason : ExpressionFault → String
  | .character c => "Unexpected character '" ++ String.singleton c ++ "'"
  | .empty => "Empty expression"
  | .unbalanced => "Unbalanced ')'"
  | .token text => "Unexpected token '" ++ text ++ "'"
  | .unfinished => "Unexpected end of expression"
  | .unclosed => "Missing ')'"
  | .other reason => reason

inductive SelectorFault where
  | period (what : String) (given : Value)
  | emptyWindow
  | length (months : Int)
  | policy (given : Value)
  | text (given : String)

def SelectorFault.message : SelectorFault → String
  | .period what given =>
    "Invalid " ++ what ++ ": " ++ given.quoted ++ ". Must be an integer between 1 and 12"
  | .emptyWindow => "Rolling window must cover at least one period"
  | .length months => "Rolling window length must be positive, got " ++ toString months
  | .policy given =>
    "Unknown rolling window policy: " ++ given.quoted ++ ". Valid policies are: partial, strict"
  | .text given =>
    "Unrecognized period selector: " ++ Text.quoted given ++
      ". Expected All, Q1-Q4, P1-P12, a period number, or LTM"

structure Failure where
  category : Category
  severity : Severity
  message : String
  context : Entries

inductive Error where
  | invalidReport (issues : List Issue) (reportId : Value)
  | invalidFilter (problems : List String) (filter : Value)
  | unknownAggregate (kind : Value) (supported : List String)
  | expression (text : String) (position : Nat) (fault : ExpressionFault)
  | undefinedReference (reference : String) (expression : Option String) (position : Option Nat)
  | forwardReference (order referenced : Int) (expression : Option String)
  | circularDependency (chain : List String)
  | invalidSelector (fault : SelectorFault)
  | insufficientPeriods (label : String) (expected available : Int)
  | stated (failure : Failure)
  | overflow (o : Overflow)
  /-- an infinite value where a whole number is needed -/
  | infiniteWhole
  /-- a value that is no number where a whole number is needed -/
  | nanWhole
  /-- a text that is read for a whole number and writes none, or one with too many digits -/
  | notWhole (text : String)
  /-- a whole number with too many digits to be written -/
  | unwritable
  | notReal (text : String)
  | unusable (message : String)
  | tooLarge (message : String)
  | missingField (name : String)
  | wrongType
  | noSuchFormat
  | noSuchEntries
  | outOfRange
  | invalidRules
  | fileNotFound
  | notADirectory
  | malformedJson
  | malformedYaml (fault : Yaml.Fault)
  | malformedTable
  | emptyTable
  /-- an error from elsewhere; the flag tells one about a malformed value -/
  | foreign (malformed : Bool) (message : String)

namespace Error

def positionText : Option Nat → String
  | some n => toString n
  | none => "None"

def message : Error → String
  | invalidReport issues reportId =>
    let label := if reportId.isGiven then "Report '" ++ reportId.display ++ "'"
      else "Report definition"
    String.intercalate "\n"
      ((label ++ " failed validation with " ++ toString issues.length ++ " issue(s):") ::
        issues.map fun i => "  - " ++ i.text)
  | invalidFilter problems _ =>
    "Invalid filter specification: " ++ String.intercalate "; " problems
  | unknownAggregate kind supported =>
    "Unsupported aggregate function: " ++ kind.quoted ++ ". Valid functions are: " ++
      String.intercalate ", " supported
  | expression text position fault =>
    fault.reason ++ " at position " ++ toString position ++ " in expression '" ++ text ++ "'"
  | undefinedReference reference source position =>
    let subject := "Undefined reference '" ++ reference ++ "'"
    match source with
    | some text =>
      subject ++ " at position " ++ positionText position ++ " in expression '" ++ text ++ "'"
    | none => subject
  | forwardReference order referenced source =>
    "Item @" ++ toString order ++ " references @" ++ toString referenced ++
      ", which is not processed before it" ++
      match source with
      | some text => if text.isEmpty then "" else " (expression '" ++ text ++ "')"
      | none => ""
  | circularDependency chain =>
    "Circular dependency detected: " ++ String.intercalate " → " chain
  | invalidSelector fault => fault.message
  | insufficientPeriods label expected available =>
    label ++ ": only " ++ toString available ++ " of " ++ toString expected ++
      " period(s) present in the dataset"
  | stated failure => failure.message
  | overflow .whole => "int too large to convert to float"
  | overflow .quotient => "integer division result too large for a float"
  | infiniteWhole => "cannot convert float infinity to integer"
  | nanWhole => "cannot convert float NaN to integer"
  | notWhole text => Numeral.refusal text
  | unwritable => Numeral.limitText ""
  | notReal text => "could not convert string to float: " ++ Text.quoted text
  | unusable message => message
  | tooLarge message => message
  | missingField name => Text.quoted name
  | foreign _ message => message
  | wrongType => "unsupported type of value"
  | noSuchFormat => "no such display format"
  | noSuchEntries => "the value has no entries"
  | outOfRange => "the decimal does not fit the precision"
  | invalidRules => "invalid formatting rules"
  | fileNotFound => "file not found"
  | notADirectory => "not a directory"
  | malformedJson => "malformed JSON text"
  | malformedYaml _ => "malformed YAML text"
  | malformedTable => "malformed table"
  | emptyTable => "no columns in the table"

/-- The general terms of a failure of a report; the other errors have none. -/
def failure? (e : Error) : Option Failure :=
  let failure (category : Category) (context : List (String × Value)) : Failure :=
    { category, severity := .high, message := e.message,
      context := context.map fun f => (.text f.1, f.2) }
  match e with
  | invalidReport issues reportId =>
    some (failure .invalidDefinition
      [("report_id", reportId), ("issues", .list (issues.map fun i => .text i.text))])
  | invalidFilter _ filter => some (failure .unknownFilterField [("filter", filter)])
  | unknownAggregate kind _ => some (failure .unknownAggregate [("aggregate", kind)])
  | expression text position _ =>
    some (failure .expressionSyntax
      [("expression", .text text), ("position", .whole position)])
  | undefinedReference reference source position =>
    some (failure .undefinedReference
      [("reference", .text reference), ("expression", .ofText? source),
        ("position", match position with
          | some n => .whole n
          | none => .null)])
  | forwardReference order referenced source =>
    some (failure .forwardReference
      [("order", .whole order), ("referenced_order", .whole referenced),
        ("expression", .ofText? source)])
  | circularDependency chain =>
    some { failure .circularDependency [("chain", .list (chain.map .text))] with
      severity := .critical }
  | invalidSelector _ => some (failure .invalidPeriodSelector [])
  | insufficientPeriods label expected available =>
    some { failure .insufficientPeriodData
        [("selector", .text label), ("expected", .whole expected),
          ("available", .whole available)] with
      severity := .medium }
  | stated f => some f
  | _ => none

def isMalformed : Error → Bool
  | nanWhole | notWhole _ | unwritable | notReal _ | unusable _ | missingField _ => true
  | wrongType | malformedTable | emptyTable | malformedJson | invalidRules => true
  | foreign malformed _ => malformed
  | _ => false

end Error
end LedgerReport
