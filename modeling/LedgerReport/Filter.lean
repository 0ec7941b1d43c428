import LedgerReport.Movement.Basic
import LedgerReport.Pattern.Search
/-!
Filters: which movements are meant.

A filter gives for some fields a value, a list of values, or a map of tests. A movement matches if
every field does. `Filter.problems` lists what is wrong with the specification of a filter,
`Filter.read` gives the filter of one with nothing wrong, `Filter.describe` puts it into words.
-/

set_option autoImplicit false

namespace LedgerReport
open Pattern

inductive Bound where
  | atLeast
  | atMost
  | above
  | below
  deriving DecidableEq, Repr

inductive TextTest where
  | contains
  | startsWith
  | endsWith
  | regex
  deriving DecidableEq, Repr

namespace Bound

def all : List Bound := [atLeast, atMost, above, below]

def name : Bound → String
  | atLeast => "gte"
  | atMost => "lte"
  | above => "gt"
  | below => "lt"

def admits : Bound → Ordering → Bool
  | atLeast, o => o != .lt
  | atMost, o => o != .gt
  | above, o => o == .gt
  | below, o => o == .lt

end Bound

namespace TextTest

def all : List TextTest := [contains, startsWith, endsWith, regex]

def name : TextTest → String
  | contains => "contains"
  | startsWith => "startsWith"
  | endsWith => "endsWith"
  | regex => "regex"

end TextTest

inductive Test where
  | within (bound : Bound) (limit : Value)
  | contains (text : String)
  | startsWith (text : String)
  | endsWith (text : String)
  | matching (regex : Regex)

inductive Condition where
  | equals (value : Value)
  | oneOf (values : List Value)
  | passes (tests : List Test)

abbrev Filter := List (Field × Condition)

namespace Test

/-- The order of a value against a limit: of numbers by size, else of their texts. -/
def order (value limit : Value) : Option Ordering :=
  match value.number?, limit.number? with
  | some m, some n => m.order n
  | _, _ => some (compare value.display limit.display)

def hasInfix (part : List Char) : List Char → Bool
  | [] => part.isEmpty
  | c :: r => part.isPrefixOf (c :: r) || hasInfix part r

def holds (value : Value) : Test → Bool
  | within bound limit => match order value limit with
    | some o => bound.admits o
    | none => false
  | contains text => hasInfix text.toList value.display.toList
  | startsWith text => text.toList.isPrefixOf value.display.toList
  | endsWith text => text.toList.isSuffixOf value.display.toList
  | matching regex => regex.foundIn value.display

end Test

def Condition.holds (value : Value) : Condition → Bool
  | equals v => value.same v
  | oneOf vs => vs.any fun v => v.same value
  | passes tests => match value with
    | .null => false
    | _ => tests.all (Test.holds value)

namespace Filter

def holds (filter : Filter) (m : Movement) : Bool :=
  filter.all fun c => c.2.holds (m.get c.1)

def testNames : List String := TextTest.all.map TextTest.name ++ Bound.all.map Bound.name

def patternError (pattern : String) (fault : Fault) : Error :=
  match fault with
  | .bad .. => .unusable (fault.message pattern)
  | .tooManyRepetitions => .tooLarge (fault.message pattern)
  | .overlong digits => .notWhole digits
  | .scriptConflict => .unusable (fault.message pattern)

def testProblems (field : String) (key : Key) (argument : Value) : Except Error (List String) :=
  let shown := field ++ "." ++ key.display
  if Bound.all.any fun b => key == .text b.name then
    match argument with
    | .text _ | .number _ => .ok []
    | _ => .ok ["Range bound for " ++ shown ++ " must be a string or number"]
  else if TextTest.all.any fun t => key == .text t.name then
    match argument with
    | .text pattern =>
      if key = .text TextTest.regex.name then
        match Regex.ofText pattern with
        | .ok _ => .ok []
        | .error (.bad reason position) =>
          .ok ["Invalid regex for " ++ field ++ ": " ++
            (Fault.bad reason position).message pattern]
        | .error fault => .error (patternError pattern fault)
      else .ok []
    | _ => .ok ["Pattern value for " ++ shown ++ " must be a string"]
  else
    .ok ["Invalid pattern key for " ++ field ++ ": " ++ key.display ++ ". Valid keys are: " ++
      String.intercalate ", " testNames]

def conditionProblems (field : String) : Value → Except Error (List String)
  | .null => .ok ["Filter value for " ++ field ++ " cannot be null"]
  | .list [] => .ok ["Filter array for " ++ field ++ " cannot be empty"]
  | .list values =>
    .ok (if values.any fun v => match v with
        | .null => true
        | _ => false
      then ["Filter array for " ++ field ++ " contains null values"] else [])
  | .map [] => .ok ["Pattern match for " ++ field ++ " must have at least one property"]
  | .map tests => do
    let problems ← tests.mapM fun t => testProblems field t.1 t.2
    return problems.flatten
  | _ => .ok []

def fieldOf? : Key → Option Field
  | .text s => Field.ofName? s
  | _ => none

def entryProblems (entries : Entries) : Except Error (List String) := do
  let problems ← entries.mapM fun e =>
    match fieldOf? e.1 with
    | some f => conditionProblems f.name e.2
    | none => .ok ["Invalid filter field: " ++ e.1.display ++ ". Valid fields are: " ++
        String.intercalate ", " (Field.all.map Field.name)]
  return problems.flatten

def problems : Value → Except Error (List String)
  | .null => .ok []
  | .map entries => entryProblems entries
  | _ => .ok ["Filter specification must be an object"]

def test (key : Key) (argument : Value) : Except Error Test :=
  match Bound.all.find? fun b => key == .text b.name with
  | some b => .ok (.within b argument)
  | none =>
    match TextTest.all.find? fun t => key == .text t.name, argument with
    | some .contains, .text s => .ok (.contains s)
    | some .startsWith, .text s => .ok (.startsWith s)
    | some .endsWith, .text s => .ok (.endsWith s)
    | some .regex, .text s => ((Regex.ofText s).map .matching).mapError (patternError s)
    | _, _ => .error .wrongType

def condition : Value → Except Error Condition
  | .list values => .ok (.oneOf values)
  | .map tests => (tests.mapM fun t => test t.1 t.2).map .passes
  | v => .ok (.equals v)

def conditions (entries : Entries) : Except Error Filter :=
  entries.mapM fun e =>
    match fieldOf? e.1 with
    | some f => (condition e.2).map fun c => (f, c)
    | none => .error .wrongType

/-- A list of two-part items as the entries of a map; the number of an item that has not two parts
is told. -/
def pairEntries (position : Nat) (before : Entries) : List Value → Except Error Value
  | [] => .ok (.map before)
  | item :: r =>
    let go (k v : Value) : Except Error Value :=
      match k with
      | .text s => pairEntries (position + 1) (before.insert (.text s) v) r
      | .number n => pairEntries (position + 1) (before.insert (.number n) v) r
      | .boolean b => pairEntries (position + 1) (before.insert (.boolean b) v) r
      | .null => pairEntries (position + 1) (before.insert .null v) r
      | _ => .error .wrongType
    let wrongLength (n : Nat) : Except Error Value :=
      .error (.unusable ("dictionary update sequence element #" ++ toString position ++
        " has length " ++ toString n ++ "; 2 is required"))
    match item with
    | .list [k, v] => go k v
    | .list items => wrongLength items.length
    | .text s => match s.toList with
      | [c, d] => go (.text (String.singleton c)) (.text (String.singleton d))
      | cs => wrongLength cs.length
    | .map [k, v] => go (keyValue k.1) (keyValue v.1)
    | .map entries => wrongLength entries.length
    | _ => .error .wrongType
where
  keyValue : Key → Value
    | .text s => .text s
    | .number n => .number n
    | .boolean b => .boolean b
    | .null => .null

def shown : Value → Except Error Value
  | .map entries => .ok (.map entries)
  | .list items => pairEntries 0 [] items
  | .text s => pairEntries 0 [] (s.toList.map fun c => .text (String.singleton c))
  | _ => .error .wrongType

/-- The filter of a specification; an empty one has no conditions. -/
def read (spec : Value) : Except Error Filter :=
  if !spec.isGiven then .ok []
  else do
    let ps ← problems spec
    if !ps.isEmpty then
      .error (.invalidFilter ps (← shown spec))
    else match spec with
      | .map entries => conditions entries
      | _ => .ok []

def describe (spec : Value) : Except Error String :=
  if !spec.isGiven then .ok "all rows"
  else match spec with
    | .map entries => .ok (String.intercalate " and " (entries.map fun e =>
        match e.2 with
        | .list values =>
          e.1.display ++ " in [" ++ String.intercalate ", " (values.map Value.display) ++ "]"
        | .map tests => String.intercalate " and " (tests.map fun t =>
            e.1.display ++ " " ++ t.1.display ++ " '" ++ t.2.display ++ "'")
        | v => e.1.display ++ " = " ++ v.quoted))
    | _ => .error .noSuchEntries

end Filter
end LedgerReport
