import LedgerReport.Numeral
import LedgerReport.Error
set_option autoImplicit false

namespace LedgerReport

abbrev Environment := List (String × String)

def Environment.get? (env : Environment) (name : String) : Option String :=
  (env.find? fun v => v.1 == name).map (·.2)

structure Settings where
  workers : Int
  windowMonths : Int
  windowPolicy : String
  currencySymbol : String
  currencyDecimals : Int
  percentDecimals : Int
  /-- how long evaluated reports are kept -/
  maxAgeHours : Option Float
  logLevel : String

namespace Settings

def variableNames : List String := [
  "REPORT_ENGINE_MAX_WORKERS", "ROLLING_WINDOW_MONTHS", "ROLLING_WINDOW_POLICY",
  "REPORT_CURRENCY_SYMBOL", "REPORT_CURRENCY_DECIMALS", "REPORT_PERCENT_DECIMALS",
  "REPORT_CACHE_MAX_AGE_HOURS", "LOG_LEVEL"]

def whole (env : Environment) (name : String) (default : Int) : Except Error Int :=
  match env.get? name with
  | none => .ok default
  | some s => match Numeral.readWhole? s with
    | some n => .ok n
    | none => .error (.notWhole s)

def optionalReal (env : Environment) (name : String) : Except Error (Option Float) :=
  let s := Text.trim ((env.get? name).getD "")
  if s.isEmpty then .ok none
  else match Numeral.readReal? s with
    | some x => .ok (some x)
    | none => .error (.notReal s)

def text (env : Environment) (name default : String) : String := (env.get? name).getD default

def ofEnvironment (env : Environment) : Except Error Settings := do
  let workers ← whole env "REPORT_ENGINE_MAX_WORKERS" 1
  let windowMonths ← whole env "ROLLING_WINDOW_MONTHS" 12
  let currencyDecimals ← whole env "REPORT_CURRENCY_DECIMALS" 0
  let percentDecimals ← whole env "REPORT_PERCENT_DECIMALS" 1
  let maxAgeHours ← optionalReal env "REPORT_CACHE_MAX_AGE_HOURS"
  return {
    workers, windowMonths, currencyDecimals, percentDecimals, maxAgeHours
    windowPolicy := text env "ROLLING_WINDOW_POLICY" "partial"
    currencySymbol := text env "REPORT_CURRENCY_SYMBOL" "€"
    logLevel := text env "LOG_LEVEL" "INFO" }

def problems (s : Settings) : List String :=
  let inBounds (n : Int) : Bool := 0 ≤ n && n ≤ 4
  let check (good : Bool) (problem : String) : List String := if good then [] else [problem]
  check (1 ≤ s.workers) "REPORT_ENGINE_MAX_WORKERS must be at least 1" ++
  check (1 ≤ s.windowMonths) "ROLLING_WINDOW_MONTHS must be at least 1" ++
  check (s.windowPolicy == "partial" || s.windowPolicy == "strict")
    "ROLLING_WINDOW_POLICY must be 'partial' or 'strict'" ++
  check (inBounds s.currencyDecimals) "REPORT_CURRENCY_DECIMALS must be between 0 and 4" ++
  check (inBounds s.percentDecimals) "REPORT_PERCENT_DECIMALS must be between 0 and 4" ++
  check (s.currencySymbol.length ≤ 5) "REPORT_CURRENCY_SYMBOL must be at most 5 characters"

def record (s : Settings) : Value :=
  .ofFields [
    ("engine", .ofFields [("max_workers", .whole s.workers),
      ("rolling_window_months", .whole s.windowMonths),
      ("rolling_window_policy", .text s.windowPolicy)]),
    ("formatting", .ofFields [("currency_symbol", .text s.currencySymbol),
      ("currency_decimals", .whole s.currencyDecimals),
      ("percent_decimals", .whole s.percentDecimals)]),
    ("cache", .ofFields [("max_age_hours", match s.maxAgeHours with
      | some x => .real x
      | none => .null)]),
    ("log_level", .text s.logLevel)]

end Settings
end LedgerReport
