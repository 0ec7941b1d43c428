import LedgerReport.Value
/-!
Reading tables from text: lines of cells with commas between them.

A cell that starts with a double quote reaches to the next single one, and a double quote inside it
is written twice. Blank lines are passed over. The first line names the columns. The others have a
cell for each column: cells that are missing at the end are empty, and if the first of them has more
cells than there are names, the cells in front are left out in every line.
-/

set_option autoImplicit false

namespace LedgerReport.Csv

inductive Fault where
  | empty
  | malformed
  deriving DecidableEq, Repr

inductive Place where
  | line (blanks : List Char)
  | cell
  | plain
  | quoted
  | closed
  deriving DecidableEq, Repr

structure Progress where
  place : Place
  cell : List Char
  cells : List String
  lines : List (List String)

namespace Progress

def start : Progress := ⟨.line [], [], [], []⟩

def endCell (p : Progress) : Progress :=
  { p with place := .cell, cell := [], cells := String.ofList p.cell.reverse :: p.cells }

def endLine (p : Progress) : Progress :=
  let p := p.endCell
  ⟨.line [], [], [], p.cells.reverse :: p.lines⟩

def push (p : Progress) (place : Place) (c : Char) : Progress :=
  { p with place, cell := c :: p.cell }

def pass (p : Progress) (c : Char) : Progress :=
  if c = '\n' || c = '\r' then p.endLine
  else if c = ',' then p.endCell
  else p.push .plain c

def step (p : Progress) (c : Char) : Progress :=
  match p.place with
  | .line blanks =>
    if c = '\n' || c = '\r' then { p with place := .line [] }
    else if c = ' ' || c = '\t' then { p with place := .line (c :: blanks) }
    else if blanks.isEmpty && c = '"' then { p with place := .quoted }
    else pass { p with cell := blanks } c
  | .cell => if c = '"' then { p with place := .quoted } else p.pass c
  | .plain => p.pass c
  | .quoted => if c = '"' then { p with place := .closed } else p.push .quoted c
  | .closed => if c = '"' then p.push .quoted c else p.pass c

def finish (p : Progress) : Except Fault (List (List String)) :=
  match p.place with
  | .line _ => .ok p.lines.reverse
  | .quoted => .error .malformed
  | _ => .ok p.endLine.lines.reverse

end Progress

def lines (text : String) : Except Fault (List (List String)) :=
  let cs := match text.toList with
    | '\ufeff' :: r => r
    | cs => cs
  (cs.foldl Progress.step .start).finish

def padded (width : Nat) : List (List String) → Except Fault (List (List String))
  | [] => .ok []
  | l :: r =>
    if width < l.length then .error .malformed
    else (padded width r).map fun r => (l ++ List.replicate (width - l.length) "") :: r

structure Table where
  names : List String
  lines : List (List String)

def tableOf : List (List String) → Except Fault Table
  | [] => .error .empty
  | names :: body =>
    let width := max names.length ((body.head?.map List.length).getD 0)
    (padded width body).map fun body => ⟨names, body.map fun l => l.drop (width - names.length)⟩

def read (text : String) : Except Fault Table := do
  tableOf (← lines text)

end LedgerReport.Csv
