import LedgerReport.Report.Validation
import LedgerReport.Statement.Layout
import LedgerReport.Statement.Variance
import LedgerReport.Statement.Display
import LedgerReport.Statement.Cache
import LedgerReport.Settings
set_option autoImplicit false

namespace LedgerReport

structure Engine where
  resolver : Resolver
  rules : FormattingRules

namespace Engine

def ofSettings (s : Settings) : Except Error Engine := do
  let policy ← Policy.read (.text s.windowPolicy)
  let rules ← Display.rulesOf s.currencySymbol s.currencyDecimals s.percentDecimals
  return ⟨⟨max 1 s.workers, policy⟩, rules⟩

def cacheOf (s : Settings) : Option (Cache Row) :=
  s.maxAgeHours.map fun x => .empty (some (.real x))

def column (e : Engine) (r : Report) (d : Dataset) (s : Selector) : Logged (List Row) := do
  let movements ← s.restrict e.resolver.policy d
  let values ← e.resolver.resolveAll r.measures movements
  Logged.ofExcept (r.rows values movements)

def compared (e : Engine) (r : Report) (d : Dataset) (rows : List Row) :
    Option Selector → Logged (List Row)
  | some s => do
    let others ← e.column r d s
    Variance.apply rows others
  | none => pure rows

def displayed (e : Engine) (r : Report) (comparison : Option Selector) (rows : List Row) :
    Except Error (List Row) :=
  rows.mapM (Display.formatRow (r.formatting.getD e.rules) comparison.isSome)

def evaluateChecked (e : Engine) (r : Report) (d : Dataset) (base : Selector)
    (comparison : Option Selector) : Logged (List Row) := do
  let rows ← e.column r d base
  let rows ← e.compared r d rows comparison
  Logged.ofExcept (e.displayed r comparison rows)

def evaluate (e : Engine) (r : Report) (d : Dataset) (base : Selector)
    (comparison : Option Selector) : Logged (List Row) := do
  r.check
  e.evaluateChecked r d base comparison

/-- The rows of a report that passes its checks, from a cache if it has them, and the cache after
that. -/
def lookUp (e : Engine) (cache : Cache Row) (now : Instant) (r : Report) (d : Dataset)
    (base : Selector) (comparison : Option Selector) : Logged (List Row) × Cache Row :=
  let key := CacheKey.ofSelectors r.id base comparison
  let found := cache.find now key d.fingerprint
  let settled := cache.settle key found
  match found with
  | .fresh rows => (pure rows, settled)
  | other =>
    let result := do
      Logged.warn (other.warnings key)
      e.evaluateChecked r d base comparison
    match result.outcome with
    | .ok rows => (result, settled.set now key d.fingerprint rows)
    | .error _ => (result, settled)

/-- The rows of a report, from a cache if there is one that has them, and the cache after that. -/
def evaluateCached (e : Engine) (cache : Option (Cache Row)) (now : Instant) (r : Report)
    (d : Dataset) (base : Selector) (comparison : Option Selector) :
    Logged (List Row) × Option (Cache Row) :=
  match cache with
  | none => (e.evaluate r d base comparison, none)
  | some c =>
    let checked := r.check
    match checked.outcome with
    | .error error => (⟨.error error, checked.warnings⟩, some c)
    | .ok _ =>
      let (result, c) := e.lookUp c now r d base comparison
      (⟨result.outcome, checked.warnings ++ result.warnings⟩, some c)

end Engine
end LedgerReport
