import LedgerReport.Report.Basic
set_option autoImplicit false

namespace LedgerReport

structure Row where
  order : Int
  label : String
  type : RowType
  indent : Int
  style : Style
  format : FormatName
  value : Amount
  comparison : Amount
  change : Amount
  changePercent : Amount
  formatted : List (String × String)
  metadata : Entries

namespace Row

def ofItem (item : Item) (value : Amount) : Row where
  order := item.order
  label := item.label.getD ""
  type := item.content.type
  indent := item.indent
  style := item.style.getD (match item.content with
    | .spacer => .spacer
    | _ => .normal)
  format := item.format.getD .decimal
  value := value
  comparison := none
  change := none
  changePercent := none
  formatted := []
  metadata := match item.content with
    | .ofVariable name => [(.text "variable", .text name)]
    | .calculated expression => [(.text "expression", .text expression)]
    | .category filter => [(.text "filter", .map filter)]
    | .subtotal first last => [(.text "range", .list [.whole first, .whole last])]
    | .spacer => []

def textOf (r : Row) (name : String) : String :=
  ((r.formatted.find? fun f => f.1 == name).map (·.2)).getD ""

def record (r : Row) : Value :=
  .ofFields [
    ("order", .whole r.order), ("label", .text r.label), ("type", .text r.type.name),
    ("indent", .whole r.indent), ("style", .text r.style.name), ("format", .text r.format.name),
    ("value", .ofAmount r.value), ("comparison_value", .ofAmount r.comparison),
    ("variance_amount", .ofAmount r.change), ("variance_percent", .ofAmount r.changePercent),
    ("formatted", .ofFields (r.formatted.map fun f => (f.1, .text f.2))),
    ("metadata", .map r.metadata)]

end Row
end LedgerReport
