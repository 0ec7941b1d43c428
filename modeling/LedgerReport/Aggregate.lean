import LedgerReport.Text.Basic
import LedgerReport.Text.Case
import LedgerReport.Error
set_option autoImplicit false

namespace LedgerReport

inductive Aggregate where
  | sum
  | average
  | count
  | min
  | max
  | first
  | last
  deriving DecidableEq, Repr

namespace Aggregate

def all : List Aggregate := [sum, average, count, min, max, first, last]

def name : Aggregate → String
  | sum => "sum"
  | average => "average"
  | count => "count"
  | min => "min"
  | max => "max"
  | first => "first"
  | last => "last"

def aliases : List (String × Aggregate) := [("avg", average), ("mean", average)]

def ofName? (name : String) : Option Aggregate :=
  ((aliases.find? fun a => a.1 == name).map (·.2)).or (all.find? fun a => a.name == name)

/-- The aggregate that a value names, without regard to case and to blanks around the name. -/
def ofValue? : Value → Option Aggregate
  | .text s => ofName? (Text.lower (Text.trim s))
  | _ => none

def read (v : Value) : Except Error Aggregate :=
  match ofValue? v with
  | some a => .ok a
  | none => .error (.unknownAggregate v (all.map name))

def total (ns : List Number) : Except Overflow Number :=
  ns.foldlM (fun sum n => sum.add n) (.whole 0)

/-- The value nearest to a number of amounts. No list of amounts is so long that there is none. -/
def countValue (n : Nat) : Float := Decimal.nearest n 1

def mean (sum : Number) (n : Nat) : Except Overflow Number :=
  match sum with
  | .whole _ => sum.div (.whole n)
  | .real x => .ok (.real (x / countValue n))

/-- The number kept of all: the first one, replaced by each later one that is `better`. -/
def extreme (better : Number → Number → Bool) : List Number → Amount
  | [] => none
  | n :: r => some (r.foldl (fun kept m => if better m kept then m else kept) n)

def apply (a : Aggregate) (amounts : List Amount) : Except Overflow Amount :=
  let present := amounts.filterMap id
  match a with
  | sum => do
    let s ← total present
    let x ← s.toFloat
    return some (.real x)
  | average =>
    if present.isEmpty then .ok none
    else do
      let s ← total present
      let m ← mean s present.length
      return some m
  | count => .ok (some (.real (countValue amounts.length)))
  | min => .ok (extreme (fun m kept => m.lt kept) present)
  | max => .ok (extreme (fun m kept => kept.lt m) present)
  | first => .ok (amounts.head?.join)
  | last => .ok (amounts.getLast?.join)

def reduce (kind : Value) (amounts : List Amount) : Except Error Amount := do
  let a ← read kind
  (a.apply amounts).mapError .overflow

end Aggregate
end LedgerReport
