import LedgerReport.Movement.Basic
import LedgerReport.Numeral
import LedgerReport.Text.Case
set_option autoImplicit false

namespace LedgerReport

def recordAliases : List (String × String) := [
  ("movement_amount", "amount"), ("amount_movement", "amount"),
  ("statementtype", "statement_type"), ("statement", "statement_type"), ("month", "period")]

def recordName (key : Key) : String :=
  let name := Text.lower (Text.trim key.display)
  ((recordAliases.find? fun a => a.1 == name).map (·.2)).getD name

def recordValue? (record : Entries) (name : String) : Option Value :=
  (record.reverse.find? fun e => recordName e.1 == name).map (·.2)

namespace Value

def isMissing : Value → Bool
  | .null => true
  | .number n => n.isNaN
  | _ => false

def recordText (v : Value) : Value :=
  if v.isMissing then .null
  else match v with
    | .number (.real x) => match (Number.real x).whole? with
      | some n => .text (toString n)
      | none => .text v.display
    | _ => .text v.display

def toWhole : Value → Except Error Int
  | .text s => match Numeral.readWhole? s with
    | some n => .ok n
    | none => .error (.notWhole s)
  | .number n => match n.truncate? with
    | some n => .ok n
    | none => .error (if n.isNaN then .nanWhole else .infiniteWhole)
  | .boolean b => .ok (if b then 1 else 0)
  | _ => .error .wrongType

def toReal : Value → Except Error Float
  | .text s => match Numeral.readReal? s with
    | some x => .ok x
    | none => .error (.notReal s)
  | .number n => n.toFloat.mapError .overflow
  | .boolean b => .ok (if b then 1.0 else 0.0)
  | _ => .error .wrongType

def recordAmount (v : Value) : Except Error Amount :=
  if v.isMissing then .ok none
  else match v with
    | .list [] => .error (.unusable
        "The truth value of an empty array is ambiguous. Use `array.size > 0` to check that an array is not empty.")
    | .list [item] => if item.isMissing then .ok none else .error .wrongType
    | .list _ => .error (.unusable
        "The truth value of an array with more than one element is ambiguous. Use a.any() or a.all()")
    | _ => v.toReal.map fun x => some (.real x)

end Value

namespace Movement

def recordWhole (record : Entries) (name : String) : Except Error Int :=
  match recordValue? record name with
  | some v => v.toWhole
  | none => .error (.missingField name)

def ofRecord (record : Entries) : Except Error Movement := do
  let amount ← ((recordValue? record "amount").getD .null).recordAmount
  let year ← recordWhole record "year"
  let period ← recordWhole record "period"
  return ofFields amount year period fun f =>
    ((recordValue? record f.name).getD .null).recordText

end Movement
end LedgerReport
