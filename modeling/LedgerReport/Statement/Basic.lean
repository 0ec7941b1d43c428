import LedgerReport.Statement.Engine
import LedgerReport.Movement.Frame
set_option autoImplicit false

namespace LedgerReport

structure Statement where
  reportId : String
  name : String
  version : String
  kind : StatementKind
  rows : List Row
  label : String
  comparisonLabel : Option String
  variableCount : Nat
  itemCount : Nat
  fingerprint : String

namespace Statement

def ofRows (r : Report) (d : Dataset) (base : Selector) (comparison : Option Selector)
    (rows : List Row) : Statement where
  reportId := r.id
  name := r.name
  version := r.version
  kind := r.statement
  rows := rows
  label := base.label
  comparisonLabel := comparison.map Selector.label
  variableCount := r.vars.length
  itemCount := r.layout.length
  fingerprint := d.fingerprint

def metadata (s : Statement) : Value :=
  .ofFields [("period_label", .text s.label), ("comparison_label", .ofText? s.comparisonLabel),
    ("variable_count", .whole s.variableCount), ("layout_item_count", .whole s.itemCount),
    ("dataset_fingerprint", .text s.fingerprint)]

/-- The statement as a record, with the time at which it was made if that is given. -/
def record (s : Statement) (generated : Option String) : Value :=
  .ofFields ([("report_id", .text s.reportId), ("report_name", .text s.name),
      ("report_version", .text s.version), ("statement_type", .text s.kind.name)] ++
    (generated.map fun time => ("generated_at", Value.text time)).toList ++
    [("rows", .list (s.rows.map Row.record)), ("metadata", s.metadata)])

def rowValues (s : Statement) (r : Row) : List (String × Value) :=
  let text (name : String) : Value := .text (r.textOf name)
  [("order", .whole r.order), ("label", .text r.label), ("type", .text r.type.name),
    ("indent", .whole r.indent), ("value", .ofAmount r.value), ("formatted", text "value")] ++
  if s.comparisonLabel.isSome then
    [("comparison_value", .ofAmount r.comparison), ("variance_amount", .ofAmount r.change),
      ("variance_percent", .ofAmount r.changePercent),
      ("formatted_comparison", text "comparison_value"),
      ("formatted_variance", text "variance_amount"),
      ("formatted_variance_percent", text "variance_percent")]
  else []

def table (s : Statement) : List Entries :=
  Frame.records (s.rows.map fun r => (s.rowValues r).map fun f => (.text f.1, f.2))

end Statement
end LedgerReport
