import LedgerReport.Numeral
/-!
Reading the arguments of a command: words, and options that start with two hyphens.

An option may be cut short as long as one option alone starts like it. Its value follows as the
next word, or in the same argument behind an equals sign. Behind two hyphens on their own there are
only words. Numbers with a minus sign, and arguments with a blank inside, are words as well. A call
for help counts unless something before it does not fit; options that nobody knows do not count
as such.
-/

set_option autoImplicit false

namespace LedgerReport

inductive Stop where
  | idle
  | help
  | refused
  deriving DecidableEq, Repr

inductive Operand where
  | nothing
  | text
  | number
  deriving DecidableEq, Repr

def Operand.admits : Operand → String → Bool
  | nothing, _ => false
  | text, _ => true
  | number, s => (Numeral.readWhole? s).isSome

structure Switch where
  name : String
  operand : Operand
  deriving DecidableEq, Repr

/-- Words, and the values of options; an option without a value has an empty one. -/
structure Arguments where
  words : List String
  values : List (String × String)

namespace Arguments

def value? (a : Arguments) (name : String) : Option String :=
  (a.values.reverse.find? fun v => v.1 == name).map (·.2)

def has (a : Arguments) (name : String) : Bool := (a.value? name).isSome

inductive Kind where
  | word
  | switch (s : Switch) (value : Option String)
  | help
  | unknown
  | ambiguous

def isNegativeNumber : List Char → Bool
  | '-' :: r =>
    match r.dropWhile Text.isDecimalDigit with
    | [] => !r.isEmpty
    | '.' :: ds => !ds.isEmpty && ds.all Text.isDecimalDigit
    | _ => false
  | _ => false

/-- The parts of an argument before the first equals sign and behind it, if there is one. -/
def splitEquals (cs : List Char) : List Char × Option String :=
  match cs.dropWhile (· ≠ '=') with
  | _ :: r => (cs.takeWhile (· ≠ '='), some (String.ofList r))
  | [] => (cs, none)

def helpSwitch : Switch := ⟨"--help", .nothing⟩

def kindOf (s : Switch) (value : Option String) : Kind :=
  if s = helpSwitch && value.isNone then .help else .switch s value

def kind (switches : List Switch) (argument : String) : Kind :=
  let all := switches ++ [helpSwitch]
  let cs := argument.toList
  let other := if isNegativeNumber cs || cs.contains ' ' then Kind.word else .unknown
  match cs with
  | '-' :: '-' :: _ =>
    match all.find? fun s => s.name == argument with
    | some s => kindOf s none
    | none =>
      let (start, value) := splitEquals cs
      match all.find? fun s => s.name.toList = start with
      | some s => kindOf s value
      | none =>
        match all.filter fun s => start.isPrefixOf s.name.toList with
        | [] => other
        | [s] => kindOf s value
        | _ => .ambiguous
  | '-' :: 'h' :: _ => .help
  | '-' :: _ :: _ => other
  | _ => .word

def isWord (switches : List Switch) (argument : String) : Bool :=
  argument ≠ "--" && kind switches argument matches .word

def addWord (w : String) (a : Arguments) : Arguments := { a with words := w :: a.words }

def addValue (name value : String) (a : Arguments) : Arguments :=
  { a with values := (name, value) :: a.values }

/-- The arguments that are given; the flag tells whether a word stands directly before them. -/
def scan (switches : List Switch) (afterWord : Bool) : List String → Except Stop Arguments
  | [] => .ok ⟨[], []⟩
  | argument :: r =>
    if argument = "--" then if r.isEmpty && !afterWord then .error .refused else .ok ⟨r, []⟩
    else
      match kind switches argument with
      | .word => (scan switches true r).map (addWord argument)
      | .help => .error .help
      | .ambiguous => .error .refused
      | .unknown => match scan switches false r with
        | .error stop => .error stop
        | .ok _ => .error .refused
      | .switch s (some value) =>
        if s.operand.admits value then (scan switches false r).map (addValue s.name value)
        else .error .refused
      | .switch s none =>
        match s.operand, r with
        | .nothing, r => (scan switches false r).map (addValue s.name "")
        | _, [] => .error .refused
        | operand, value :: r =>
          if isWord switches value && operand.admits value then
            (scan switches false r).map (addValue s.name value)
          else .error .refused

/-- Whether an argument before two hyphens on their own is the start of several options. -/
def isAmbiguous (switches : List Switch) (args : List String) : Bool :=
  (args.takeWhile (· ≠ "--")).any fun a => kind switches a matches .ambiguous

def read (switches : List Switch) (args : List String) : Except Stop Arguments :=
  if isAmbiguous switches args then .error .refused else scan switches false args

end Arguments
end LedgerReport
