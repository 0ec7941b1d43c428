import LedgerReport.Statement.Row
import LedgerReport.Logged
set_option autoImplicit false

namespace LedgerReport.Variance

def derive (base comparison : Amount) : Except Overflow (Amount × Amount) :=
  match base, comparison with
  | some b, some c => do
    let change ← c.sub b
    if b.isZero then return (some change, none)
    let share ← change.div b.abs
    let percent ← share.mul (.whole 100)
    return (some change, some percent)
  | _, _ => .ok (none, none)

def valueAt? (rows : List Row) (n : Int) : Option Amount :=
  (rows.reverse.find? fun r => r.order = n).map Row.value

def compareRow (others : List Row) (r : Row) : Except Error Row :=
  match r.type with
  | .spacer => .ok r
  | _ => do
    let comparison := (valueAt? others r.order).join
    let (change, changePercent) ← (derive r.value comparison).mapError .overflow
    return { r with comparison, change, changePercent }

/-- Rows with the values of other rows; a warning tells how many have none. -/
def apply (rows others : List Row) : Logged (List Row) := do
  let compared ← Logged.ofExcept (rows.mapM (compareRow others))
  let missing := rows.filter fun r => r.type ≠ .spacer && (valueAt? others r.order).isNone
  if !missing.isEmpty then
    Logged.warn [toString missing.length ++ " row(s) have no comparison value"]
  return compared

end LedgerReport.Variance
