import LedgerReport.Value
set_option autoImplicit false

namespace LedgerReport

inductive FormatName where
  | currency
  | percent
  | integer
  | decimal
  deriving DecidableEq, Repr

namespace FormatName

def all : List FormatName := [currency, percent, integer, decimal]

def name : FormatName → String
  | currency => "currency"
  | percent => "percent"
  | integer => "integer"
  | decimal => "decimal"

end FormatName

inductive Style where
  | normal
  | metric
  | subtotal
  | total
  | spacer
  deriving DecidableEq, Repr

namespace Style

def all : List Style := [normal, metric, subtotal, total, spacer]

def name : Style → String
  | normal => "normal"
  | metric => "metric"
  | subtotal => "subtotal"
  | total => "total"
  | spacer => "spacer"

end Style

inductive StatementKind where
  | balance
  | income
  | cashflow
  deriving DecidableEq, Repr

namespace StatementKind

def all : List StatementKind := [balance, income, cashflow]

def name : StatementKind → String
  | balance => "balance"
  | income => "income"
  | cashflow => "cashflow"

end StatementKind

structure Variable where
  filter : Entries
  aggregate : String
  description : Option String

inductive RowType where
  | variableRow
  | calculated
  | category
  | subtotal
  | spacer
  deriving DecidableEq, Repr

namespace RowType

def all : List RowType := [variableRow, calculated, category, subtotal, spacer]

def name : RowType → String
  | variableRow => "variable"
  | calculated => "calculated"
  | category => "category"
  | subtotal => "subtotal"
  | spacer => "spacer"

end RowType

inductive Content where
  | ofVariable (name : String)
  | calculated (expression : String)
  | category (filter : Entries)
  | subtotal (first last : Int)
  | spacer

def Content.type : Content → RowType
  | ofVariable _ => .variableRow
  | calculated _ => .calculated
  | category _ => .category
  | subtotal .. => .subtotal
  | spacer => .spacer

structure Item where
  order : Int
  label : Option String
  format : Option FormatName
  style : Option Style
  indent : Int
  content : Content

structure FormatRule where
  decimals : Int
  thousands : Bool
  symbol : Option String
  deriving DecidableEq, Repr

structure FormattingRules where
  currency : FormatRule
  percent : FormatRule
  integer : FormatRule
  decimal : FormatRule
  deriving DecidableEq, Repr

namespace FormattingRules

def standard : FormattingRules where
  currency := ⟨0, true, some "€"⟩
  percent := ⟨1, false, some "%"⟩
  integer := ⟨0, true, none⟩
  decimal := ⟨2, true, none⟩

def rule (r : FormattingRules) : FormatName → FormatRule
  | .currency => r.currency
  | .percent => r.percent
  | .integer => r.integer
  | .decimal => r.decimal

end FormattingRules

structure Report where
  id : String
  name : String
  version : String
  statement : StatementKind
  description : Option String
  vars : List (String × Variable)
  layout : List Item
  formatting : Option FormattingRules

namespace Report

/-- The rows of the layout in ascending order; of equal orders the earlier one comes first. -/
def sortedLayout (r : Report) : List Item :=
  r.layout.mergeSort fun a b => decide (a.order ≤ b.order)

/-- The rows by order: of equal orders the last one counts, in the place of the first. -/
def itemsByOrder (r : Report) : List (Int × Item) :=
  r.layout.foldl (fun byOrder item => insertItem item byOrder) []
where
  insertItem (item : Item) : List (Int × Item) → List (Int × Item)
    | [] => [(item.order, item)]
    | (n, other) :: r =>
      if n = item.order then (n, item) :: r else (n, other) :: insertItem item r

end Report
end LedgerReport
