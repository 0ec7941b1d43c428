import LedgerReport.Movement.Column
import LedgerReport.Movement.Sign
import LedgerReport.Document.Json
import LedgerReport.Files
set_option autoImplicit false

namespace LedgerReport

def recordNumber : Json.NumberRule := fun cs isWhole =>
  if isWhole then Json.exactNumber cs true
  else match Column.written? (String.ofList cs) with
    | some w => .ok (.real w.summed)
    | none => Json.exactNumber cs false

namespace Dataset

def tableError : Csv.Fault → Error
  | .empty => .emptyTable
  | .malformed => .malformedTable

def recordsOfCsv (text : String) : Except Error (List Entries) := do
  let t ← (Csv.read text).mapError tableError
  return Column.records ((Column.ofTable t).map fun c => (.text c.1, c.2)) t.lines.length

def recordsError (f : Json.Fault) : Error :=
  .unusable (match f with
    | .malformed .extraData _ => "Trailing data"
    | .malformed .. => "Expected object or value"
    | .overlong digits =>
      if digits.startsWith "-" then "Value is too small" else "Value is too big!")

def entriesOf : Value → Entries
  | .map es => es
  | _ => []

def recordsOfValue : Value → Except Error (List Entries)
  | .list items => .ok (items.map entriesOf)
  | .map [] => .ok []
  | .map es =>
    let columns := es.filterMap fun e => match e.2 with
      | .list items => some (e.1, items)
      | _ => none
    match columns with
    | [] => .error (.unusable "If using all scalar values, you must pass an index")
    | c :: _ =>
      if columns.all fun other => other.2.length = c.2.length then
        .ok ((List.range c.2.length).map fun i => es.map fun e => match e.2 with
          | .list items => (e.1, items.getD i .null)
          | v => (e.1, v))
      else .error (.unusable "All arrays must be of the same length")
  | _ => .error (.unusable "DataFrame constructor not properly called!")

def recordsOfJson (text : String) : Except Error (List Entries) := do
  let v ← (Json.readWith recordNumber text).mapError recordsError
  let rs ← recordsOfValue v
  let columns := (Frame.columns rs).map fun name =>
    (name, Column.converted (Frame.typed (Frame.column rs name)))
  return Column.records columns rs.length

def isJsonName (name : String) : Bool := (Text.lower name).endsWith ".json"

def ofFile (files : Files) (name : String) : Except Error Dataset := do
  let text ← files.opened name
  let rs ← if isJsonName name then recordsOfJson text else recordsOfCsv text
  ofRecords rs name

end Dataset
end LedgerReport
