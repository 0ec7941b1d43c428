import LedgerReport.Movement.Dataset
/-!
Tables of records.

A table has a column for every name that a record gives, in the order in which names first occur.
A column holds values of one kind where it can: numbers, which are all floating-point values if one
of them is or one is missing, or texts. A missing value is then not a number; only in a column of
several kinds null stays as it is.
-/

set_option autoImplicit false

namespace LedgerReport.Frame

def columns (records : List Entries) : List Key :=
  (records.flatMap fun r => r.map (·.1)).foldl
    (fun ks k => if ks.any fun k' => k'.same k then ks else ks ++ [k]) []

def column (records : List Entries) (name : Key) : List (Option Value) :=
  records.map fun r => (r.find? fun e => e.1.same name).map (·.2)

def missing : Value := .real (0.0 / 0.0)

def isNumber : Value → Bool
  | .number _ => true
  | _ => false

def isText : Value → Bool
  | .text _ => true
  | _ => false

def isWhole : Value → Bool
  | .number (.whole _) => true
  | _ => false

def widened : Value → Value
  | .number n => match n.toFloat with
    | .ok x => .real x
    | .error _ => .number n
  | v => v

def typed (values : List (Option Value)) : List Value :=
  let absent := values.any (·.isNone)
  let given := values.filterMap id
  let present := given.filter fun v => !v.isMissing
  let complete := present.length == values.length
  if given.all fun v => match v with
      | .null => true
      | _ => false
  then values.map fun v => if absent then missing else v.getD missing
  else if given.all fun v => isNumber v || v.isMissing then
    if complete && present.all isWhole then values.map (·.getD missing)
    else values.map fun v => match v with
      | some v => if v.isMissing then missing else widened v
      | none => missing
  else if given.all fun v => isText v || v.isMissing then
    values.map fun v => match v with
      | some v => if v.isMissing then missing else v
      | none => missing
  else values.map (·.getD missing)

def records (rs : List Entries) : List Entries :=
  let names := columns rs
  let filled := names.map fun name => (typed (column rs name))
  (List.range rs.length).map fun i =>
    names.zip (filled.map fun c => c.getD i missing)

end LedgerReport.Frame

namespace LedgerReport.Dataset

def ofFrame (records : List Entries) (source : String) : Except Error Dataset :=
  ofRecords (Frame.records records) source

end LedgerReport.Dataset
