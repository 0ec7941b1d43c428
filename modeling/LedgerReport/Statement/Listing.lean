import LedgerReport.Statement.Basic
set_option autoImplicit false

namespace LedgerReport

def padBehind (width : Nat) (s : String) : String :=
  s ++ String.ofList (List.replicate (width - s.length) ' ')

def padBefore (width : Nat) (s : String) : String :=
  String.ofList (List.replicate (width - s.length) ' ') ++ s

def ruler (sign : Char) (width : Nat) : String := String.ofList (List.replicate width sign)

namespace Statement

def width : Nat := 78

def labelWidth : Nat := 38

def valueWidth : Nat := 20

def rowLine (compared : Bool) (r : Row) : String :=
  match r.type with
  | .spacer => ""
  | _ =>
    let label := String.ofList ((List.replicate (2 * r.indent.toNat) ' ' ++ r.label.toList).take
      labelWidth)
    let line := padBehind labelWidth label ++ padBefore valueWidth (r.textOf "value")
    if compared then
      let percent := r.textOf "variance_percent"
      line ++ padBefore valueWidth (r.textOf "comparison_value") ++
        (if percent.isEmpty then "" else "  (" ++ percent ++ ")")
    else line

def titleLine (s : Statement) : String :=
  padBehind labelWidth "" ++ padBefore valueWidth s.label ++
    match s.comparisonLabel with
    | some label => padBefore valueWidth label
    | none => ""

def listing (s : Statement) : List String :=
  ["", ruler '=' width, s.name ++ "  (v" ++ s.version ++ ")", ruler '=' width, s.titleLine,
    ruler '-' width] ++ s.rows.map (rowLine s.comparisonLabel.isSome) ++ [ruler '=' width]

end Statement
end LedgerReport
