import LedgerReport.Report.Basic
set_option autoImplicit false

namespace LedgerReport

def optionalField (name : String) : Option Value → List (String × Value)
  | some v => [(name, v)]
  | none => []

def Variable.record (v : Variable) : Value :=
  .ofFields ([("filter", .map v.filter), ("aggregate", .text v.aggregate)] ++
    optionalField "description" (v.description.map .text))

def Content.fields : Content → List (String × Value)
  | ofVariable name => [("variable", .text name)]
  | calculated expression => [("expression", .text expression)]
  | category filter => [("filter", .map filter)]
  | subtotal first last => [("from", .whole first), ("to", .whole last)]
  | spacer => []

def Item.record (i : Item) : Value :=
  .ofFields ([("order", .whole i.order)] ++ optionalField "label" (i.label.map .text) ++
    optionalField "format" (i.format.map fun f => .text f.name) ++
    optionalField "style" (i.style.map fun s => .text s.name) ++
    [("indent", .whole i.indent), ("type", .text i.content.type.name)] ++ i.content.fields)

def FormatRule.record (r : FormatRule) : Value :=
  .ofFields ([("decimals", .whole r.decimals), ("thousands", .boolean r.thousands)] ++
    optionalField "symbol" (r.symbol.map .text))

def FormattingRules.record (r : FormattingRules) : Value :=
  .ofFields (FormatName.all.map fun f => (f.name, (r.rule f).record))

def Report.record (r : Report) : Value :=
  .ofFields ([("reportId", .text r.id), ("name", .text r.name), ("version", .text r.version),
      ("statementType", .text r.statement.name)] ++
    optionalField "description" (r.description.map .text) ++
    [("variables", .ofFields (r.vars.map fun v => (v.1, v.2.record))),
      ("layout", .list (r.layout.map Item.record))] ++
    optionalField "formatting" (r.formatting.map FormattingRules.record))

end LedgerReport
