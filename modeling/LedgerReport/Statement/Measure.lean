import LedgerReport.Report.Basic
import LedgerReport.Expression.Evaluation
import LedgerReport.Filter
import LedgerReport.Aggregate
import LedgerReport.Period
set_option autoImplicit false

namespace LedgerReport

structure Measure where
  filter : Value
  aggregate : Value

namespace Measure

def ofVariable (v : Variable) : Measure := ⟨.map v.filter, .text v.aggregate⟩

def ofValue : Value → Except Error Measure
  | .map es =>
    let filter := (Entries.get? es "filter").getD .null
    .ok ⟨if filter.isGiven then filter else .map [],
      (Entries.get? es "aggregate").getD (.text Aggregate.sum.name)⟩
  | _ => .error .noSuchEntries

def amounts (m : Measure) (movements : List Movement) : Except Error (List Amount) :=
  (Filter.read m.filter).map fun f => (movements.filter f.holds).map Movement.amount

def value (m : Measure) (movements : List Movement) : Except Error (Amount × Nat) := do
  let amounts ← m.amounts movements
  let a ← Aggregate.reduce m.aggregate amounts
  return (a, amounts.length)

/-- The value of a named measure; a warning tells that no movement matches. -/
def resolve (name : String) (m : Except Error Measure) (movements : List Movement) :
    Logged Amount := do
  let m ← Logged.ofExcept m
  let (a, matched) ← Logged.ofExcept (m.value movements)
  if matched = 0 then
    let description ← Logged.ofExcept (Filter.describe m.filter)
    Logged.warn ["Variable '" ++ name ++ "' matched no rows (" ++ description ++ ")"]
  return a

end Measure

abbrev Measures := List (String × Except Error Measure)

structure Resolver where
  workers : Int
  policy : Policy

namespace Resolver

def resolveInTurn (measures : Measures) (movements : List Movement) :
    Logged (List (String × Amount)) :=
  measures.mapM fun m => do
    let a ← Measure.resolve m.1 m.2 movements
    return (m.1, a)

def resolveTogether (measures : Measures) (movements : List Movement) :
    Logged (List (String × Amount)) :=
  let results := measures.map fun m => (m.1, Measure.resolve m.1 m.2 movements)
  ⟨results.mapM fun r => r.2.outcome.map fun a => (r.1, a),
    results.flatMap fun r => r.2.warnings⟩

def resolveAll (r : Resolver) (measures : Measures) (movements : List Movement) :
    Logged (List (String × Amount)) :=
  if 1 < r.workers && 1 < measures.length then resolveTogether measures movements
  else resolveInTurn measures movements

def resolveSelected (r : Resolver) (measures : Measures) (d : Dataset) (s : Selector) :
    Logged (List (String × Amount)) := do
  let movements ← s.restrict r.policy d
  r.resolveAll measures movements

end Resolver

def Report.measures (r : Report) : Measures :=
  r.vars.map fun v => (v.1, .ok (Measure.ofVariable v.2))

end LedgerReport
