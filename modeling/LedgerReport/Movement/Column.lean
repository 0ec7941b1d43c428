import LedgerReport.Decimal.Stepwise
import LedgerReport.Document.Csv
import LedgerReport.Movement.Frame
set_option autoImplicit false

namespace LedgerReport.Column

def missingWords : List String := [
  "", "#N/A", "#N/A N/A", "#NA", "-1.#IND", "-1.#QNAN", "-NaN", "-nan", "1.#IND", "1.#QNAN",
  "<NA>", "N/A", "NA", "NULL", "NaN", "None", "n/a", "nan", "null"]

def textNames : List String := ["code1", "code2", "code3", "account_code"]

def isSpace (c : Char) : Bool := c = ' ' || ('\t' ≤ c && c ≤ '\r')

def splitSign (cell : String) : Bool × List Char :=
  match ((cell.toList.dropWhile isSpace).reverse.dropWhile isSpace).reverse with
  | '-' :: r => (true, r)
  | '+' :: r => (false, r)
  | r => (false, r)

def whole? (cell : String) : Option Int :=
  let (negative, digits) := splitSign cell
  if digits.isEmpty || !digits.all Char.isDigit then none
  else
    let n : Nat := digits.foldl (fun n c => 10 * n + (c.toNat - 48)) 0
    some (if negative then -(n : Int) else n)

def power? (cs : List Char) : Option Int :=
  match cs with
  | [] => some 0
  | e :: r =>
    let digits := match r with
      | '-' :: r => r
      | '+' :: r => r
      | r => r
    if (e = 'e' || e = 'E') && !digits.isEmpty && digits.all Char.isDigit then
      some (Decimal.Written.exponentOf r)
    else none

def written? (cell : String) : Option Decimal.Written :=
  let (negative, cs) := splitSign cell
  let whole := cs.takeWhile Char.isDigit
  let (fraction, r) := match cs.dropWhile Char.isDigit with
    | '.' :: r => (r.takeWhile Char.isDigit, r.dropWhile Char.isDigit)
    | r => ([], r)
  if whole.isEmpty && fraction.isEmpty then none
  else (power? r).map fun power => ⟨negative, whole, fraction, power⟩

def infinity? (cell : String) : Option Float :=
  match cell.toList.map Char.toLower with
  | '-' :: r => if isWord r then some (-(1.0 / 0.0)) else none
  | '+' :: r => if isWord r then some (1.0 / 0.0) else none
  | r => if isWord r then some (1.0 / 0.0) else none
where
  isWord (cs : List Char) : Bool := cs = "inf".toList || cs = "infinity".toList

def real? (cell : String) : Option Float :=
  ((written? cell).bind Decimal.Written.scaled?).or (infinity? cell)

def boolean? (cell : String) : Option Bool :=
  let word := cell.toList.map Char.toLower
  if word = "true".toList then some true
  else if word = "false".toList then some false
  else none

def isSigned (n : Int) : Bool := -9223372036854775808 ≤ n && n < 9223372036854775808

def fit (ns : List Int) : Bool :=
  ns.all isSigned || ns.all fun n => 0 ≤ n && n < 18446744073709551616

def valueOr (cell : String) (value : String → Value) : Value :=
  if missingWords.contains cell then Frame.missing else value cell

def values (isText : Bool) (cells : List String) : List Value :=
  let given := cells.filter fun c => !missingWords.contains c
  let wholes := given.filterMap whole?
  let through (value : String → Value) : List Value := cells.map fun c => valueOr c value
  if isText then through .text
  else if wholes.length = given.length then
    let exact (c : String) : Value := .whole ((whole? c).getD 0)
    if given.length < cells.length && fit wholes then through fun c => Frame.widened (exact c)
    else through exact
  else if given.all fun c => (real? c).isSome then through fun c => .real ((real? c).getD 0.0)
  else if given.all fun c => (boolean? c).isSome then
    through fun c => .boolean ((boolean? c).getD false)
  else through .text

/-- The columns of a table with their values; of columns with one name the first one counts. -/
def ofTable (t : Csv.Table) : List (String × List Value) :=
  let columns := t.names.zipIdx.map fun n =>
    (n.1, values (textNames.contains n.1) (t.lines.map fun l => l.getD n.2 ""))
  columns.eraseDupsBy fun a b => a.1 == b.1

def numeric? (v : Value) : Option Float :=
  match v with
  | .null => some (0.0 / 0.0)
  | .number n => n.toFloat.toOption
  | .boolean b => some (if b then 1.0 else 0.0)
  | .text s => Numeral.readReal? s
  | _ => none

/-- The values of a column as floating-point numbers, whole ones as whole numbers if all are. -/
def narrowed (xs : List Float) : List Value :=
  let wholes := xs.filterMap fun x => (Number.real x).whole?
  if wholes.length = xs.length && wholes.all isSigned then
    wholes.map .whole
  else xs.map .real

def converted (vs : List Value) : List Value :=
  let isBoolean (v : Value) : Bool := v matches .boolean _
  if vs.all Frame.isWhole || vs.all isBoolean then vs
  else
    let xs := vs.filterMap numeric?
    if xs.length = vs.length then narrowed xs else vs

def records (columns : List (Key × List Value)) (height : Nat) : List Entries :=
  (List.range height).map fun i => columns.map fun c => (c.1, c.2.getD i Frame.missing)

end LedgerReport.Column
