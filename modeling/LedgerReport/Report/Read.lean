import LedgerReport.Report.Record
import LedgerReport.Report.Decoded
import LedgerReport.Document.Json
import LedgerReport.Files
set_option autoImplicit false

namespace LedgerReport
open Decoded

def decodeFilter (v : Value) : Decoded Entries :=
  (dictionary .ok v).map fun es => es.map fun e => (.text e.1, e.2)

def Variable.decode : Value → Decoded Variable :=
  model "VariableDefinition" fun es =>
    Variable.mk <$> optional es ["filter"] [] decodeFilter
      <*> optional es ["aggregate"] "sum" text
      <*> optional es ["description"] none (nullable text)

def Content.decode (type : RowType) (es : Entries) : Decoded Content :=
  match type with
  | .variableRow => .ofVariable <$> required es ["variable"] text
  | .calculated => .calculated <$> required es ["expression"] text
  | .category => .category <$> optional es ["filter"] [] decodeFilter
  | .subtotal => .subtotal <$> required es ["from", "from_"] whole <*> required es ["to"] whole
  | .spacer => .ok .spacer

def Item.decodeAs (type : RowType) (es : Entries) : Decoded Item :=
  Item.mk <$> required es ["order"] (atLeast 0)
    <*> optional es ["label"] none (nullable text)
    <*> optional es ["format"] none (nullable (oneOf FormatName.all FormatName.name))
    <*> optional es ["style"] none (nullable (oneOf Style.all Style.name))
    <*> optional es ["indent"] 0 (between 0 3)
    <*> Content.decode type es

def Item.decode : Value → Decoded Item
  | .map es =>
    match Entries.get? es "type" with
    | none => flaw "Unable to extract tag using discriminator 'type'"
    | some tag =>
      match RowType.all.find? fun t => tag.same (.text t.name) with
      | some type => (Item.decodeAs type es).under type.name
      | none => flaw ("Input tag '" ++ tag.display ++
          "' found using 'type' does not match any of the expected tags: " ++
          String.intercalate ", " (RowType.all.map fun t => "'" ++ t.name ++ "'"))
  | _ => flaw "Input should be a valid dictionary or object to extract fields from"

def FormatRule.decode : Value → Decoded FormatRule :=
  model "FormatRule" fun es =>
    FormatRule.mk <$> optional es ["decimals"] 0 (between 0 4)
      <*> optional es ["thousands"] true boolean
      <*> optional es ["symbol"] none (nullable fun v =>
          (text v).demand "String should have at most 5 characters" fun s => s.length ≤ 5)

/-- The rules of an object; a format that it does not name has its standard rule. -/
def FormattingRules.decode : Value → Decoded FormattingRules :=
  model "FormattingRules" fun es =>
    FormattingRules.mk <$> optional es ["currency"] standard.currency FormatRule.decode
      <*> optional es ["percent"] standard.percent FormatRule.decode
      <*> optional es ["integer"] standard.integer FormatRule.decode
      <*> optional es ["decimal"] standard.decimal FormatRule.decode

namespace Report

def isId (s : String) : Bool :=
  !s.isEmpty && s.toList.all fun c => c.isLower || c.isDigit || c = '_' || c = '-'

def dropNumber? (cs : List Char) : Option (List Char) :=
  if (cs.head?.map Text.isDecimalDigit).getD false then some (cs.dropWhile Text.isDecimalDigit)
  else none

def isVersion (s : String) : Bool :=
  match dropNumber? s.toList with
  | some ('.' :: r) => match dropNumber? r with
    | some ('.' :: r) => dropNumber? r == some []
    | _ => false
  | _ => false

def decodeEntries (es : Entries) : Decoded Report :=
  Report.mk <$> required es ["reportId", "report_id"] (fun v =>
      (text v).demand "String should match pattern '^[a-z0-9_-]+$'" isId)
    <*> required es ["name"] (fun v =>
      (text v).demand "String should have at least 1 character" fun s => !s.isEmpty)
    <*> required es ["version"] (fun v =>
      (text v).demand "String should match pattern '^\\d+\\.\\d+\\.\\d+$'" isVersion)
    <*> required es ["statementType", "statement_type"] (oneOf StatementKind.all StatementKind.name)
    <*> optional es ["description"] none (nullable text)
    <*> optional es ["variables"] [] (dictionary Variable.decode)
    <*> optional es ["layout"] [] (list Item.decode)
    <*> optional es ["formatting"] none (nullable FormattingRules.decode)

def issueOf (f : Flaw) : Issue := ⟨String.intercalate "." f.path, f.message⟩

def ofValue : Value → Except Error Report
  | .map es => match decodeEntries es with
    | .ok r => .ok r
    | .bad flaws =>
      .error (.invalidReport (flaws.map issueOf) ((Entries.get? es "reportId").getD .null))
  | _ => .error (.invalidReport [⟨"", "Report definition must be an object"⟩] .null)

def jsonIssue (text : String) (reason : Json.Reason) (position : Nat) : Issue :=
  let cs := text.toList
  ⟨"", "Invalid JSON at line " ++ toString (Json.lineOf cs position) ++ ", column " ++
    toString (Json.columnOf cs position) ++ ": " ++ reason.message⟩

/-- The report that a JSON text defines. That the text is not JSON is an issue; that a whole number
in it has too many digits is not. -/
def ofJson (text : String) : Except Error Report :=
  match Json.read text with
  | .ok v => ofValue v
  | .error (.malformed reason position) =>
    .error (.invalidReport [jsonIssue text reason position] .null)
  | .error (.overlong digits) => .error (.notWhole digits)

def ofDefinition : Value → Except Error Report
  | .text s => ofJson s
  | v => ofValue v

def isYamlSuffix (suffix : List Char) : Bool :=
  let small := suffix.map Char.toLower
  small = ".yaml".toList || small = ".yml".toList

/-- The report that a YAML text defines; its faults are reported under the name of its file. -/
def ofYaml (name text : String) : Except Error Report :=
  match Yaml.read text with
  | .ok v => ofValue v
  | .error (.overlong digits) => .error (.notWhole digits)
  | .error _ => .error (.invalidReport [⟨FileName.simplified name, "Invalid YAML: "⟩] .null)

def ofFile (files : Files) (name : String) : Except Error Report := do
  let text ← files.text name
  if isYamlSuffix (FileName.suffix name) then ofYaml name text else ofJson text

end Report
end LedgerReport
