import LedgerReport.Statement.Row
import LedgerReport.Statement.Measure
/-!
The values of the rows of a layout, in one pass in ascending order.

A row of a variable has its value, a category the sum of the movements that match, a calculated row
the value of its expression over the variables and the rows before it, and a subtotal the sum of
the rows so far in its range that are neither spacers nor subtotals. A spacer has no value and
counts for nothing.
-/

set_option autoImplicit false

namespace LedgerReport.Layout

def typeOf? (layout : List Item) (n : Int) : Option RowType :=
  (layout.reverse.find? fun i => i.order = n).map fun i => i.content.type

/-- What a reference without a value stands for in the row with an order: another row of the layout
comes later. -/
def laterRows (layout : List Item) (order : Int) : Definitions :=
  layout.map fun i => (.order i.order, .refused (.forwardReference order i.order none))

def isSummed (layout : List Item) (first last n : Int) : Bool :=
  first ≤ n && n ≤ last &&
    match typeOf? layout n with
    | some .spacer | some .subtotal => false
    | _ => true

/-- The sum of the values of the rows in a range, in the order in which they were set. -/
def subtotal (layout : List Item) (first last : Int) (orders : List (Int × Amount)) :
    Except Overflow Number :=
  orders.foldlM (fun sum row =>
    match row.2 with
    | some n => if isSummed layout first last row.1 then sum.add n else .ok sum
    | none => .ok sum) (.real 0.0)

def value (layout : List Item) (movements : List Movement) (item : Item) : Resolution Amount := do
  match item.content with
  | .ofVariable name =>
    match getPair? name (← get).names with
    | some a => return a
    | none => throw (.undefinedReference name none none)
  | .category filter =>
    match (Measure.mk (.map filter) (.text Aggregate.sum.name)).value movements with
    | .ok a => return a.1
    | .error e => throw e
  | .calculated expression =>
    evaluateAs (some (laterRows layout item.order)) [] (.order item.order) expression
  | .subtotal first last =>
    match subtotal layout first last (← get).orders with
    | .ok n => return some n
    | .error o => throw (.overflow o)
  | .spacer => return none

/-- The row of an item; its value is set for the rows after it. -/
def row (layout : List Item) (movements : List Movement) (item : Item) : Resolution Row := do
  let a ← value layout movements item
  unless item.content matches .spacer do modify (·.set (.order item.order) a)
  return .ofItem item a

def rows (layout : List Item) (values : List (String × Amount)) (movements : List Movement) :
    Except Error (List Row) :=
  ((layout.mapM (row layout movements)).run ⟨values, []⟩).1

end LedgerReport.Layout

namespace LedgerReport

/-- The rows of a report, given the values of its variables and the selected movements. -/
def Report.rows (r : Report) (values : List (String × Amount)) (movements : List Movement) :
    Except Error (List Row) :=
  Layout.rows r.sortedLayout values movements

end LedgerReport
