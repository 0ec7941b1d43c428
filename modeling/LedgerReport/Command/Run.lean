import LedgerReport.Command.Basic
import LedgerReport.Report.Read
import LedgerReport.Movement.File
import LedgerReport.Statement.Listing
import LedgerReport.Document.JsonText
set_option autoImplicit false

namespace LedgerReport

structure Outcome where
  exit : Nat
  /-- the printed lines; none stand for the explanation of the commands -/
  lines : Option (List String)
  error : Option Error
  warnings : List String

namespace Outcome

def success (lines warnings : List String) : Outcome := ⟨0, some lines, none, warnings⟩

def failure (e : Error) (warnings : List String) : Outcome := ⟨1, some [], some e, warnings⟩

def text? (o : Outcome) : Option String :=
  o.lines.map fun ls => String.join (ls.map fun l => l ++ "\n")

def ofStop : Stop → Outcome
  | .idle => ⟨1, none, none, []⟩
  | .help => ⟨0, none, none, []⟩
  | .refused => ⟨2, some [], none, []⟩

end Outcome

def environmentFile : String := ".env"

def Environment.assignment? (line : List Char) : Option (String × String) :=
  match Text.trimChars line with
  | '#' :: _ => none
  | cs =>
    match cs.dropWhile (· ≠ '=') with
    | _ :: value => some (Text.trim (String.ofList (cs.takeWhile (· ≠ '='))),
        Text.trim (String.ofList value))
    | [] => none

def Environment.completed (env : Environment) (text : String) : Environment :=
  env ++ (Text.lines text.toList).filterMap Environment.assignment?

namespace Command

/-- The year of an evaluation: the last one in the data unless another is asked for. -/
def yearOf (e : Evaluation) (d : Dataset) : Except Error Int :=
  match e.year, d.latest? with
  | some y, _ => .ok y
  | none, some last => .ok last.year
  | none, none => .error (.unusable ("Dataset " ++ e.data ++ " is empty"))

def selectorOf (s : Settings) (d : Dataset) (year : Int) (period : String) :
    Except Error Selector :=
  Selector.ofText period year (d.latest?.map fun p => (p.year, .whole p.period)) s.windowMonths

def comparisonOf (s : Settings) (e : Evaluation) (d : Dataset) : Except Error (Option Selector) :=
  match e.compareYear with
  | none => .ok none
  | some year =>
    let period := (e.comparePeriod.filter fun p => !p.isEmpty).getD e.period
    (selectorOf s d year period).map some

def statementOf (s : Settings) (files : Files) (e : Evaluation) : Logged Statement := do
  let report ← Logged.ofExcept (Report.ofFile files e.report)
  let data ← Logged.ofExcept (Dataset.ofFile files e.data)
  let data := if e.flip then data.withSignConvention else data
  let year ← Logged.ofExcept (yearOf e data)
  let base ← Logged.ofExcept (selectorOf s data year e.period)
  let comparison ← Logged.ofExcept (comparisonOf s e data)
  let engine ← Logged.ofExcept (Engine.ofSettings s)
  let rows ← (engine.evaluateCached (Engine.cacheOf s) 0 report data base comparison).1
  return .ofRows report data base comparison rows

def shown (e : Evaluation) (generated : String) (s : Statement) : List String :=
  if e.asJson then [JsonText.indented (s.record (some generated))] else s.listing

def isYamlName (name : String) : Bool :=
  let small := name.toList.map Char.toLower
  ".yaml".toList.isSuffixOf small || ".yml".toList.isSuffixOf small

def definitionOf (files : Files) (name : String) : Except Error Value := do
  let text := Text.ofFile (← files.opened name)
  if isYamlName name then
    (Yaml.read text).mapError fun
      | .overlong digits => .notWhole digits
      | fault => .malformedYaml fault
  else
    (Json.read text).mapError fun
      | .overlong digits => .notWhole digits
      | .malformed .. => .malformedJson

def findings (name : String) (v : Validation) : List String :=
  if v.isValid then ["✅ " ++ v.reportId.display ++ ": valid"]
  else
    let title := if v.reportId.isGiven then v.reportId.display else name
    ("❌ " ++ title ++ ": invalid") ::
      if v.issues.isEmpty then (v.error.map fun c => "   " ++ c.userMessage).toList
      else v.issues.map fun i => "   - " ++ i.text

def settingsLines (s : Settings) : List String :=
  let age := match s.maxAgeHours with
    | some x => Decimal.floatText x ++ "h"
    | none => "disabled"
  let verdict := if s.problems.isEmpty then ["   ✅ Configuration valid"]
    else s.problems.map fun p => "   ❌ " ++ p
  ["", ruler '=' 60, "CONFIGURATION", ruler '=' 60,
    "", "⚙️  Engine:",
    "   Max workers: " ++ toString s.workers,
    "   Rolling window: " ++ toString s.windowMonths ++ " months (" ++ s.windowPolicy ++ ")",
    "", "🔢 Formatting:",
    "   Currency: " ++ s.currencySymbol ++ " (" ++ toString s.currencyDecimals ++ " decimals)",
    "   Percent: " ++ toString s.percentDecimals ++ " decimals",
    "", "📦 Cache:",
    "   Max age: " ++ age, ""] ++ verdict ++ [ruler '=' 60]

def run (s : Settings) (files : Files) (generated : String) : Command → Outcome
  | .evaluate e =>
    let r := statementOf s files e
    match r.outcome with
    | .ok statement => .success (shown e generated statement) r.warnings
    | .error error => .failure error r.warnings
  | .validate name =>
    match definitionOf files name with
    | .error error => .failure error []
    | .ok definition =>
      let r := Validation.ofDefinition definition
      match r.outcome with
      | .ok v => ⟨if v.isValid then 0 else 2, some (findings name v), none, r.warnings⟩
      | .error error => .failure error r.warnings
  | .setup => .success (settingsLines s) []

def settingsOf (env : Environment) (files : Files) : Except Error Settings :=
  match files.text environmentFile with
  | .ok text => Settings.ofEnvironment (env.completed text)
  | .error _ => Settings.ofEnvironment env

/-- The command that arguments ask for. Settings that cannot be read stop any command. -/
def runArguments (env : Environment) (files : Files) (generated : String)
    (arguments : List String) : Outcome :=
  match settingsOf env files, ofArguments arguments with
  | .error _, .error .idle => .ofStop .idle
  | .error _, _ => ⟨1, some [], none, []⟩
  | .ok _, .error stop => .ofStop stop
  | .ok s, .ok c => c.run s files generated

end Command
end LedgerReport
