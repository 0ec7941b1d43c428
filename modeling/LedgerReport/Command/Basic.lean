import LedgerReport.Command.Arguments
set_option autoImplicit false

namespace LedgerReport

structure Evaluation where
  report : String
  data : String
  year : Option Int
  period : String
  compareYear : Option Int
  comparePeriod : Option String
  flip : Bool
  asJson : Bool

inductive Command where
  | evaluate (e : Evaluation)
  | validate (report : String)
  | setup

namespace Command

def switches : List Switch := [
  ⟨"--year", .number⟩, ⟨"--period", .text⟩, ⟨"--compare-year", .number⟩,
  ⟨"--compare-period", .text⟩, ⟨"--flip-passiva", .nothing⟩, ⟨"--json", .nothing⟩]

def ofEvaluation (a : Arguments) : Except Stop Command :=
  match a.words with
  | [report, data] =>
    .ok (.evaluate {
      report, data
      year := (a.value? "--year").bind Numeral.readWhole?
      period := (a.value? "--period").getD "All"
      compareYear := (a.value? "--compare-year").bind Numeral.readWhole?
      comparePeriod := a.value? "--compare-period"
      flip := a.has "--flip-passiva"
      asJson := a.has "--json" })
  | _ => .error .refused

def named (name : String) (args : List String) : Except Stop Command := do
  match name with
  | "evaluate" => ofEvaluation (← Arguments.read switches args)
  | "validate" =>
    let a ← Arguments.read [] args
    match a.words with
    | [report] => return .validate report
    | _ => throw .refused
  | "setup" =>
    let a ← Arguments.read [] args
    if a.words.isEmpty then return .setup else throw .refused
  | _ => throw .refused

def choose : List String → Except Stop Command
  | [] => .error .refused
  | "--" :: _ => .error .refused
  | argument :: r =>
    match Arguments.kind [] argument with
    | .word => named argument r
    | .help => .error .help
    | .unknown => match choose r with
      | .error stop => .error stop
      | .ok _ => .error .refused
    | _ => .error .refused

def ofArguments (args : List String) : Except Stop Command :=
  if args.isEmpty then .error .idle else choose args

def fileNames : Command → List String
  | evaluate e => [e.report, e.data]
  | validate report => [report]
  | setup => []

end Command
end LedgerReport
