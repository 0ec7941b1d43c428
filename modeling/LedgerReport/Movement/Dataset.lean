import LedgerReport.Movement.Record
import LedgerReport.Movement.Digest
set_option autoImplicit false

namespace LedgerReport

structure YearPeriod where
  year : Int
  period : Int
  deriving DecidableEq, Repr

namespace YearPeriod

def notAfter (a b : YearPeriod) : Bool :=
  a.year < b.year || (a.year = b.year && a.period ≤ b.period)

def sorted (ps : List YearPeriod) : List YearPeriod := ps.eraseDups.mergeSort notAfter

end YearPeriod

namespace Movement

def yearPeriod (m : Movement) : YearPeriod := ⟨m.year, m.period⟩

end Movement

structure Dataset where
  movements : List Movement
  source : String

namespace Dataset

def ofRecords (records : List Entries) (source : String) : Except Error Dataset := do
  let movements ← records.mapM Movement.ofRecord
  return ⟨movements, source⟩

/-- A text from which datasets with different movements are told apart. -/
def fingerprint (d : Dataset) : String :=
  ((Digest.hex (String.join (d.movements.map Movement.signature))).take 16).toString

def text (d : Dataset) : String :=
  "Dataset(rows=" ++ toString d.movements.length ++ ", source=" ++ Text.quoted d.source ++ ")"

def years (d : Dataset) : List Int :=
  (d.movements.map Movement.year).eraseDups.mergeSort fun a b => decide (a ≤ b)

def periods (d : Dataset) : List YearPeriod :=
  YearPeriod.sorted (d.movements.map Movement.yearPeriod)

def latest? (d : Dataset) : Option YearPeriod := d.periods.getLast?

def records (d : Dataset) : List Entries := d.movements.map Movement.record

end Dataset
end LedgerReport
