import LedgerReport.Report.Graph
import LedgerReport.Report.Read
import LedgerReport.Filter
import LedgerReport.Aggregate
import LedgerReport.Classified
import LedgerReport.Logged
set_option autoImplicit false

namespace LedgerReport
namespace Report

def isIdentifierChars : List Char → Bool
  | [] => false
  | c :: r => Token.isNameStart c && r.all Token.isNameChar

/-- Whether a name is an identifier; a line break at its end does no harm. -/
def isIdentifier (s : String) : Bool :=
  isIdentifierChars s.toList ||
    (s.toList.getLast? = some '\n' && isIdentifierChars s.toList.dropLast)

def filterIssues (path : String) (filter : Entries) : Except Error (List Issue) := do
  let problems ← Filter.problems (.map filter)
  return problems.map fun p => ⟨path ++ ".filter", p⟩

def variableIssues (name : String) (v : Variable) : Except Error (List Issue) := do
  let path := "variables." ++ name
  let nameIssues : List Issue :=
    if isIdentifier name then [] else [⟨path, "Variable name must be a valid identifier"⟩]
  let ofFilter ← filterIssues path v.filter
  let ofAggregate : List Issue :=
    if (Aggregate.ofValue? (.text v.aggregate)).isSome then []
    else [⟨path ++ ".aggregate", "Unsupported aggregate function: " ++ v.aggregate ++
      ". Valid functions are: " ++ String.intercalate ", " (Aggregate.all.map Aggregate.name)⟩]
  return nameIssues ++ ofFilter ++ ofAggregate

def itemPath (index : Nat) : String := "layout." ++ toString index

def orderIssues (layout : List Item) : List Issue :=
  layout.zipIdx.filterMap fun i =>
    if (layout.take i.2).any fun other => other.order = i.1.order then
      some ⟨itemPath i.2 ++ ".order", "Duplicate order: " ++ toString i.1.order⟩
    else none

def hasOrder (r : Report) (n : Int) : Bool := r.layout.any fun i => i.order = n

def hasSpacer (r : Report) (n : Int) : Bool :=
  r.layout.any fun i => i.order = n && i.content matches .spacer

def hasVariable (r : Report) (name : String) : Bool := r.vars.any fun v => v.1 == name

def referenceIssues (r : Report) (path : String) (refs : List Reference) : List Issue :=
  refs.filterMap fun ref =>
    match ref with
    | .order n =>
      if !r.hasOrder n then some ⟨path, "Undefined order reference: " ++ ref.text⟩
      else if r.hasSpacer n then some ⟨path, "Reference to spacer row: " ++ ref.text⟩
      else none
    | .name v => if r.hasVariable v then none else some ⟨path, "Undefined variable: " ++ v⟩

def rangeIssues (r : Report) (path : String) (order first last : Int) : List Issue :=
  let bound (name : String) (n : Int) : List Issue :=
    if r.hasOrder n then []
    else [⟨path ++ "." ++ name, "Order number " ++ toString n ++ " does not exist"⟩]
  bound "from" first ++ bound "to" last ++
    if last ≤ first then
      [⟨path, "Subtotal range invalid: from (" ++ toString first ++ ") must be less than to (" ++
        toString last ++ ")"⟩]
    else if order < last then
      [⟨path, "Subtotal range " ++ toString first ++ "-" ++ toString last ++
        " must not end after its own order (" ++ toString order ++ ")"⟩]
    else []

/-- The issues of an expression at a path. That a text is no expression is an issue; that it cannot
be read for another reason is not. -/
def expressionIssues (path expression : String) (ofNode : Node → List Issue) :
    Except Error (List Issue) :=
  match Node.read expression with
  | .ok node => .ok (ofNode node)
  | .error e => match e with
    | .expression .. => .ok [⟨path, e.message⟩]
    | _ => .error e

def itemIssues (r : Report) (index : Nat) (item : Item) : Except Error (List Issue) :=
  let path := itemPath index
  match item.content with
  | .ofVariable name =>
    .ok (if r.hasVariable name then []
      else [⟨path ++ ".variable", "Undefined variable: " ++ name⟩])
  | .category filter => filterIssues path filter
  | .calculated expression =>
    let path := path ++ ".expression"
    expressionIssues path expression fun node => r.referenceIssues path node.references
  | .subtotal first last => .ok (r.rangeIssues path item.order first last)
  | .spacer => .ok []

def issues (r : Report) : Except Error (List Issue) := do
  let ofVariables ← r.vars.mapM fun v => variableIssues v.1 v.2
  let ofLayout : List Issue :=
    if r.layout.isEmpty then [⟨"layout", "Layout must contain at least one item"⟩] else []
  let ofItems ← r.layout.zipIdx.mapM fun i => r.itemIssues i.2 i.1
  return ofVariables.flatten ++ ofLayout ++ orderIssues r.layout ++ ofItems.flatten

def check (r : Report) : Logged Unit := do
  let found ← Logged.ofExcept r.issues
  if !found.isEmpty then
    Logged.warn ["Report '" ++ r.id ++ "' has " ++ toString found.length ++
      " validation issue(s)"]
    Logged.ofExcept (.error (.invalidReport found (.text r.id)))
  else
    Logged.ofExcept do
      let g ← r.graph
      g.checkCycles
      r.checkForward

end Report

structure Validation where
  reportId : Value
  issues : List Issue
  error : Option Classified

namespace Validation

def isValid (v : Validation) : Bool := v.error.isNone && v.issues.isEmpty

def ofError (reportId : Value) (e : Error) : Except Error Validation :=
  match e with
  | .invalidReport issues id =>
    .ok ⟨if reportId.isGiven then reportId else id, issues,
      some (.ofError e (some "validation") [])⟩
  | _ =>
    if e.failure?.isSome then .ok ⟨reportId, [], some (.ofError e (some "validation") [])⟩
    else .error e

def ofDefinition (definition : Value) : Logged Validation :=
  match Report.ofDefinition definition with
  | .error e => .ofExcept (ofError .null e)
  | .ok r =>
    let checked := r.check
    match checked.outcome with
    | .ok _ => ⟨.ok ⟨.text r.id, [], none⟩, checked.warnings⟩
    | .error e => ⟨ofError (.text r.id) e, checked.warnings⟩

def record (v : Validation) : Value :=
  .ofFields [("report_id", v.reportId), ("is_valid", .boolean v.isValid),
    ("issues", .list (v.issues.map fun i => .text i.text)),
    ("error", match v.error with
      | some c => c.toValue
      | none => .null)]

end Validation
end LedgerReport
