import LedgerReport.Statement.Row
import LedgerReport.Decimal.Fixed
import LedgerReport.Error
set_option autoImplicit false

namespace LedgerReport.Display
open Decimal

def faultError : FixedFault → Error
  | .outOfRange => .outOfRange
  | .negativePlaces => .unusable "invalid format string"

def quantity (q : Quantity) (places : Int) (thousands : Bool) : Except Error String :=
  match fixed places thousands q with
  | .ok cs => .ok (String.ofList cs)
  | .error f => .error (faultError f)

/-- The text of a value with fixed places; a text counts as the number it writes. -/
def number (v : Value) (places : Int) (thousands : Bool) : Except Error String :=
  match v with
  | .number n => quantity (.ofNumber n) places thousands
  | .text s => match Quantity.ofText? s with
    | some q => quantity q places thousands
    | none => .error .outOfRange
  | _ => .error .outOfRange

def symbolOr (symbol : Option String) (default : String) : String :=
  match symbol with
  | some s => if s.isEmpty then default else s
  | none => default

def underRule (f : FormatName) (rule : FormatRule) (v : Value) : Except Error String :=
  match f with
  | .currency => (number v rule.decimals rule.thousands).map fun s =>
      symbolOr rule.symbol "€" ++ " " ++ s
  | .percent => (number v rule.decimals rule.thousands).map fun s =>
      s ++ symbolOr rule.symbol "%"
  | .integer => number v 0 rule.thousands
  | .decimal => number v rule.decimals rule.thousands

def text (rules : FormattingRules) (v : Value) (f : FormatName) : Except Error String :=
  match v with
  | .null => .ok ""
  | _ => underRule f (rules.rule f) v

def formatOf (name : Option String) : Except Error FormatName :=
  let name := symbolOr name FormatName.decimal.name
  match FormatName.all.find? fun f => f.name == name with
  | some f => .ok f
  | none => .error .noSuchFormat

def textNamed (rules : FormattingRules) (v : Value) (name : Option String) :
    Except Error String :=
  match v with
  | .null => .ok ""
  | _ => do text rules v (← formatOf name)

def formatRow (rules : FormattingRules) (compared : Bool) (r : Row) : Except Error Row := do
  let value ← text rules (.ofAmount r.value) r.format
  if compared then
    let comparison ← text rules (.ofAmount r.comparison) r.format
    let change ← text rules (.ofAmount r.change) r.format
    let percent ← text rules (.ofAmount r.changePercent) .percent
    return { r with formatted := [("value", value), ("comparison_value", comparison),
      ("variance_amount", change), ("variance_percent", percent)] }
  else return { r with formatted := [("value", value)] }

/-- Rules with the places and the symbol that a configuration gives, within their bounds. -/
def rulesOf (symbol : String) (currencyDecimals percentDecimals : Int) :
    Except Error FormattingRules :=
  let inBounds (n : Int) : Bool := 0 ≤ n && n ≤ 4
  if inBounds currencyDecimals && inBounds percentDecimals && symbol.length ≤ 5 then
    .ok { FormattingRules.standard with
      currency := ⟨currencyDecimals, true, some symbol⟩
      percent := ⟨percentDecimals, false, some "%"⟩ }
  else .error .invalidRules

end LedgerReport.Display
