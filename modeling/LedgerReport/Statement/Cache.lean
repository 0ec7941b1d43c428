import LedgerReport.Expression.Evaluation
import LedgerReport.Period
/-!
Evaluated reports that are kept for later.

An entry belongs to a report and a selection of periods, and carries the fingerprint of the dataset
it was computed from and the time at which that was. It is found as long as the fingerprint is the
same and the entry is not older than the cache allows; a look-up that misses drops the entry.
-/

set_option autoImplicit false

namespace LedgerReport

abbrev Instant := Int

structure CacheKey where
  reportId : String
  base : String
  comparison : Option String
  deriving DecidableEq, Repr

namespace CacheKey

def make (reportId : String) (base : Selector) (comparison : Option Selector) :
    Except Error CacheKey := do
  let baseKey ← base.key
  let comparisonKey ← comparison.mapM Selector.key
  return ⟨reportId, baseKey, comparisonKey⟩

def ofSelectors (reportId : String) (base : Selector) (comparison : Option Selector) : CacheKey :=
  ⟨reportId, base.keyText, comparison.map Selector.keyText⟩

def text (k : CacheKey) : String :=
  let comparison := match k.comparison with
    | some s => Text.quoted s
    | none => "None"
  "(" ++ String.intercalate ", " [Text.quoted k.reportId, Text.quoted k.base, comparison] ++ ")"

end CacheKey

structure CacheEntry (α : Type) where
  fingerprint : String
  rows : List α
  computed : Instant

structure Cache (α : Type) where
  /-- the age in hours beyond which an entry is of no use -/
  maxAge : Option Number
  entries : List (CacheKey × CacheEntry α)
  hits : Nat
  misses : Nat

namespace Cache
variable {α : Type}

def empty (maxAge : Option Number) : Cache α := ⟨maxAge, [], 0, 0⟩

def size (c : Cache α) : Nat := c.entries.length

def hour : Nat := 3600000000

def hours (span : Int) : Float :=
  Decimal.signed (span < 0) (Decimal.nearest span.natAbs 1000000 / 3600.0)

def isStale (c : Cache α) (now : Instant) (e : CacheEntry α) : Bool :=
  match c.maxAge with
  | some limit => limit.lt (.real (hours (now - e.computed)))
  | none => false

inductive Found (α : Type) where
  | fresh (rows : List α)
  | absent
  | changed
  | stale

def Found.rows? : Found α → Option (List α)
  | .fresh rows => some rows
  | _ => none

def find (c : Cache α) (now : Instant) (k : CacheKey) (fingerprint : String) : Found α :=
  match getPair? k c.entries with
  | none => .absent
  | some e =>
    if e.fingerprint ≠ fingerprint then .changed
    else if c.isStale now e then .stale
    else .fresh e.rows

def drop (c : Cache α) (k : CacheKey) : Cache α :=
  { c with entries := c.entries.filter fun e => e.1 ≠ k }

def settle (c : Cache α) (k : CacheKey) : Found α → Cache α
  | .fresh _ => { c with hits := c.hits + 1 }
  | .absent => { c with misses := c.misses + 1 }
  | .changed | .stale => { c.drop k with misses := c.misses + 1 }

def Found.warnings (k : CacheKey) : Found α → List String
  | .changed => ["Dataset changed, invalidated cached result: " ++ k.text]
  | _ => []

def get (c : Cache α) (now : Instant) (k : CacheKey) (fingerprint : String) :
    Option (List α) × Cache α :=
  let found := c.find now k fingerprint
  (found.rows?, c.settle k found)

def set (c : Cache α) (now : Instant) (k : CacheKey) (fingerprint : String) (rows : List α) :
    Cache α :=
  { c with entries := setPair k ⟨fingerprint, rows, now⟩ c.entries }

def redate (c : Cache α) (k : CacheKey) (computed : Instant) : Cache α :=
  { c with entries := c.entries.map fun e => if e.1 = k then (k, { e.2 with computed }) else e }

def contains (c : Cache α) (k : CacheKey) : Bool := c.entries.any fun e => e.1 = k

def count (c : Cache α) (reportId : String) : Nat :=
  (c.entries.filter fun e => e.1.reportId == reportId).length

def invalidate (c : Cache α) (reportId : String) : Cache α :=
  { c with entries := c.entries.filter fun e => e.1.reportId ≠ reportId }

def clear (c : Cache α) : Cache α := { c with entries := [] }

end Cache
end LedgerReport
