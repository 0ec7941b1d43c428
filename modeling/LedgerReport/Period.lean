import LedgerReport.Movement.Dataset
import LedgerReport.Logged
/-!
Period selections: which periods a column of a report covers.

A selection is a whole year, a year up to a period, or a window of periods that may cross years.
A window holds its periods in ascending order, each once. Where the data does not reach as far as a
window, the policy decides whether what is there counts or whether that is an error.
-/

set_option autoImplicit false

namespace LedgerReport

inductive Policy where
  | takePart
  | strict
  deriving DecidableEq, Repr

namespace Policy

/-- The policy of a name, without regard to case and to blanks around it. -/
def ofText? (s : String) : Option Policy :=
  match Text.lower (Text.trim s) with
  | "partial" => some takePart
  | "strict" => some strict
  | _ => none

def read (v : Value) : Except Error Policy :=
  match ofText? v.display with
  | some p => .ok p
  | none => .error (.invalidSelector (.policy v))

end Policy

structure Window where
  periods : List YearPeriod
  name : String
  nonempty : periods ≠ []

inductive Selector where
  | year (year : Int)
  | toDate (year through : Int)
  | window (w : Window)

def checkPeriod (what : String) (v : Value) : Except Error Int :=
  match v with
  | .number (.whole n) =>
    if 1 ≤ n ∧ n ≤ 12 then .ok n else .error (.invalidSelector (.period what v))
  | _ => .error (.invalidSelector (.period what v))

namespace YearPeriod

def previous (p : YearPeriod) : YearPeriod :=
  if p.period = 1 then ⟨p.year - 1, 12⟩ else ⟨p.year, p.period - 1⟩

def countBack : Nat → YearPeriod → List YearPeriod
  | 0, _ => []
  | n + 1, p => p :: countBack n p.previous

theorem sorted_ne_nil {ps : List YearPeriod} (h : ps ≠ []) : sorted ps ≠ [] := by
  intro hs
  have hl := congrArg List.length hs
  simp [sorted, List.length_mergeSort] at hl
  cases ps with
  | nil => exact h rfl
  | cons p r => simp [List.eraseDups_cons] at hl

end YearPeriod

namespace Window

def ofPairs (pairs : List (Int × Value)) (name : String) : Except Error Window := do
  if pairs.isEmpty then throw (.invalidSelector .emptyWindow)
  let periods ← pairs.mapM fun p => (checkPeriod "period" p.2).map fun n => ⟨p.1, n⟩
  if h : periods = [] then throw (.invalidSelector .emptyWindow)
  else return ⟨YearPeriod.sorted periods, name, YearPeriod.sorted_ne_nil h⟩

def ending (year : Int) (period : Value) (months : Int) (name : String) :
    Except Error Window := do
  let n ← checkPeriod "end period" period
  if months ≤ 0 then throw (.invalidSelector (.length months))
  let periods := (YearPeriod.countBack months.toNat ⟨year, n⟩).reverse
  ofPairs (periods.map fun p => (p.year, .whole p.period)) name

def start (w : Window) : YearPeriod := w.periods.head w.nonempty

def finish (w : Window) : YearPeriod := w.periods.getLast w.nonempty

/-- The periods of a window in runs within a year: the year, the first and the last period. -/
def ranges (w : Window) : List (Int × Int × Int) :=
  (w.periods.foldl (fun blocks p =>
    match blocks with
    | (year, first, last) :: r =>
      if year = p.year ∧ last = p.period - 1 then (year, first, p.period) :: r
      else (p.year, p.period, p.period) :: blocks
    | [] => [(p.year, p.period, p.period)]) []).reverse

def present (w : Window) (available : List YearPeriod) : Nat :=
  (w.periods.filter available.contains).length

end Window

namespace Selector

def defaultName : String := "LTM"

def upTo (year : Int) (through : Value) : Except Error Selector :=
  (checkPeriod "cumulative period" through).map (.toDate year)

def contains : Selector → YearPeriod → Bool
  | year y, p => p.year = y && 1 ≤ p.period && p.period ≤ 12
  | toDate y through, p => p.year = y && 1 ≤ p.period && p.period ≤ through
  | window w, p => w.periods.contains p

def label : Selector → String
  | year y => toString y
  | toDate y through => toString y ++ " P" ++ toString through
  | window w =>
    w.name ++ " (" ++ toString w.start.year ++ " P" ++ toString w.start.period ++ " - " ++
      toString w.finish.year ++ " P" ++ toString w.finish.period ++ ")"

def keyText : Selector → String
  | year y => "all:" ++ toString y
  | toDate y through => "ytd:" ++ toString y ++ ":" ++ toString through
  | window w =>
    "rolling:" ++ String.intercalate "," (w.periods.map fun p =>
      toString p.year ++ "-" ++ toString p.period)

def numbers : Selector → List Int
  | year y => [y]
  | toDate y through => [y, through]
  | window w => w.periods.flatMap fun p => [p.year, p.period]

/-- The key of a selection, unless a number in it has too many digits to be written. Nothing else is
refused for that: labels, messages and bounds, and the keys of rows that an engine keeps, write
whole numbers of any length. -/
def key (s : Selector) : Except Error String :=
  if s.numbers.all Numeral.isWritable then .ok s.keyText else .error .unwritable

def periodsUpTo (year : Int) (through : Nat) : List YearPeriod :=
  (List.range through).map fun (i : Nat) => ⟨year, (i : Int) + 1⟩

def periods : Selector → List YearPeriod
  | year y => periodsUpTo y 12
  | toDate y through => periodsUpTo y through.toNat
  | window w => w.periods

def select (s : Selector) (d : Dataset) : List Movement :=
  d.movements.filter fun m => s.contains m.yearPeriod

def restrict (s : Selector) (policy : Policy) (d : Dataset) : Logged (List Movement) := do
  match s with
  | window w =>
    let present := w.present d.periods
    let expected := w.periods.length
    if present < expected then
      match policy with
      | .strict => Logged.ofExcept (.error (.insufficientPeriods s.label expected present))
      | .takePart =>
        Logged.warn [s.label ++ ": only " ++ toString present ++ " of " ++ toString expected ++
          " periods present, aggregating partial window"]
  | _ => pure ()
  return s.select d

/-- The selected movements, where a window is subject to the policy that a value names. -/
def restrictUnder (s : Selector) (policy : Value) (d : Dataset) : Logged (List Movement) :=
  match s with
  | window _ => do
    let p ← Logged.ofExcept (Policy.read policy)
    s.restrict p d
  | _ => s.restrict .takePart d

def quarter? (s : String) : Option Nat :=
  match s.toList with
  | ['Q', c] => if '1' ≤ c && c ≤ '4' then some (c.toNat - 48) else none
  | _ => none

def period? (s : String) : Option Nat :=
  match s.toList with
  | 'P' :: ds => if ds.length = 1 || ds.length = 2 then Text.digitsValue? ds else none
  | _ => none

/-- The selection in a year that a text names. A window ends with the last period of the data if
that is in the year, else with the last period of the year. -/
def ofText (text : Option String) (year : Int) (latest : Option (Int × Value)) (months : Int) :
    Except Error Selector := do
  let name := Text.trim (text.getD "")
  let capital := Text.upper name
  if name.isEmpty || capital = "ALL" then return .year year
  if capital = "LTM" then
    let last := match latest with
      | some (y, p) => if y = year then p else .whole 12
      | none => .whole 12
    return .window (← Window.ending year last months defaultName)
  match quarter? capital, period? capital with
  | some q, _ => upTo year (.whole (q * 3))
  | none, some p => upTo year (.whole p)
  | none, none =>
    if name.toList.all Text.isDigitSign then
      match Numeral.readWhole? name with
      | some n => upTo year (.whole n)
      | none => throw (.notWhole name)
    else throw (.invalidSelector (.text (text.getD "")))

end Selector
end LedgerReport
