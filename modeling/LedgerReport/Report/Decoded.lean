import LedgerReport.Value
import LedgerReport.Numeral
import LedgerReport.Text.Basic
import LedgerReport.Text.Case
set_option autoImplicit false

namespace LedgerReport

structure Flaw where
  path : List String
  message : String
  deriving DecidableEq, Repr

inductive Decoded (α : Type) where
  | ok (a : α)
  | bad (flaws : List Flaw)

namespace Decoded
variable {α β : Type}

def flaw (message : String) : Decoded α := .bad [⟨[], message⟩]

def map (f : α → β) : Decoded α → Decoded β
  | .ok a => .ok (f a)
  | .bad flaws => .bad flaws

def seq (f : Decoded (α → β)) (a : Decoded α) : Decoded β :=
  match f, a with
  | .ok f, .ok a => .ok (f a)
  | .ok _, .bad flaws => .bad flaws
  | .bad flaws, .ok _ => .bad flaws
  | .bad flaws, .bad others => .bad (flaws ++ others)

instance : Functor Decoded where
  map := map

instance : Applicative Decoded where
  pure := .ok
  seq f a := seq f (a ())

def under (name : String) : Decoded α → Decoded α
  | .ok a => .ok a
  | .bad flaws => .bad (flaws.map fun f => { f with path := name :: f.path })

def all : List (Decoded α) → Decoded (List α)
  | [] => .ok []
  | a :: r => List.cons <$> a <*> all r

def demand (message : String) (test : α → Bool) : Decoded α → Decoded α
  | .ok a => if test a then .ok a else flaw message
  | .bad flaws => .bad flaws

def entry? (entries : Entries) (names : List String) : Option (String × Value) :=
  names.findSome? fun n => (Entries.get? entries n).map fun v => (n, v)

/-- An entry that must be there; missing, it is called by the first of its names. -/
def required (entries : Entries) (names : List String) (read : Value → Decoded α) : Decoded α :=
  match entry? entries names with
  | some (name, v) => (read v).under name
  | none => .bad [⟨names.take 1, "Field required"⟩]

def optional (entries : Entries) (names : List String) (default : α) (read : Value → Decoded α) :
    Decoded α :=
  match entry? entries names with
  | some (name, v) => (read v).under name
  | none => .ok default

def nullable (read : Value → Decoded α) : Value → Decoded (Option α)
  | .null => .ok none
  | v => some <$> read v

def text : Value → Decoded String
  | .text s => .ok s
  | _ => flaw "Input should be a valid string"

def alternatives : List String → String
  | [] => ""
  | [a] => "'" ++ a ++ "'"
  | [a, b] => "'" ++ a ++ "' or '" ++ b ++ "'"
  | a :: r => "'" ++ a ++ "', " ++ alternatives r

def oneOf (all : List α) (name : α → String) (v : Value) : Decoded α :=
  match v with
  | .text s => match all.find? fun a => name a == s with
    | some a => .ok a
    | none => flaw ("Input should be " ++ alternatives (all.map name))
  | _ => flaw ("Input should be " ++ alternatives (all.map name))

def plainDigits? : List Char → Option (List Char)
  | [] => none
  | [c] => if c.isDigit then some [c] else none
  | c :: '_' :: r => if c.isDigit then (plainDigits? r).map (c :: ·) else none
  | c :: r => if c.isDigit then (plainDigits? r).map (c :: ·) else none

/-- The sign and the digits of the whole number that a text writes, perhaps with a point and zeros
behind it. Zeros in front do not count. -/
def wholeDigits? (s : String) : Option (Bool × List Char) :=
  let (negative, body) := match Text.unpadded s.toList with
    | '-' :: r => (true, r)
    | '+' :: r => (false, r)
    | r => (false, r)
  let digits := body.takeWhile (· ≠ '.')
  let fraction := (body.dropWhile (· ≠ '.')).drop 1
  if fraction.all (· = '0') then
    (plainDigits? digits).map fun ds => (negative, ds.dropWhile (· = '0'))
  else none

def ofPlainDigits (negative : Bool) (ds : List Char) : Int :=
  let n : Nat := ds.foldl (fun n c => 10 * n + (c.toNat - 48)) 0
  if negative then -(n : Int) else n

def whole : Value → Decoded Int
  | .number (.whole n) => .ok n
  | .number (.real x) =>
    if x.isNaN || x.isInf then flaw "Input should be a finite number"
    else match (Number.real x).whole? with
      | some n => .ok n
      | none => flaw "Input should be a valid integer, got a number with a fractional part"
  | .boolean b => .ok (if b then 1 else 0)
  | .text s => match wholeDigits? s with
    | some (negative, ds) =>
      if ds.length ≤ Numeral.digitLimit then .ok (ofPlainDigits negative ds)
      else flaw "Unable to parse input string as an integer, exceeded maximum size"
    | none => flaw "Input should be a valid integer, unable to parse string as an integer"
  | _ => flaw "Input should be a valid integer"

def atLeast (least : Int) (v : Value) : Decoded Int :=
  (whole v).demand ("Input should be greater than or equal to " ++ toString least)
    fun n => least ≤ n

def between (least most : Int) (v : Value) : Decoded Int :=
  match whole v with
  | .ok n =>
    if n < least then flaw ("Input should be greater than or equal to " ++ toString least)
    else if most < n then flaw ("Input should be less than or equal to " ++ toString most)
    else .ok n
  | .bad flaws => .bad flaws

def truthWords : List (String × Bool) := [
  ("0", false), ("off", false), ("f", false), ("false", false), ("n", false), ("no", false),
  ("1", true), ("on", true), ("t", true), ("true", true), ("y", true), ("yes", true)]

def boolean (v : Value) : Decoded Bool :=
  let uninterpretable : Decoded Bool :=
    flaw "Input should be a valid boolean, unable to interpret input"
  let ofWhole (n : Int) : Decoded Bool :=
    if n = 0 then .ok false else if n = 1 then .ok true else uninterpretable
  match v with
  | .boolean b => .ok b
  | .number n => match n.whole? with
    | some n => ofWhole n
    | none => flaw "Input should be a valid boolean"
  | .text s => match truthWords.find? fun w => w.1 == Text.lower s with
    | some w => .ok w.2
    | none => uninterpretable
  | _ => flaw "Input should be a valid boolean"

def dictionary (read : Value → Decoded α) : Value → Decoded (List (String × α))
  | .map entries => all (entries.map fun e =>
      let key : Decoded String := match e.1 with
        | .text s => .ok s
        | k => ((flaw "Input should be a valid string").under "[key]").under k.display
      Prod.mk <$> key <*> (read e.2).under e.1.display)
  | _ => flaw "Input should be a valid dictionary"

def list (read : Value → Decoded α) : Value → Decoded (List α)
  | .list items => all (items.zipIdx.map fun i => (read i.1).under (toString i.2))
  | _ => flaw "Input should be a valid list"

def model (name : String) (read : Entries → Decoded α) : Value → Decoded α
  | .map entries => read entries
  | _ => flaw ("Input should be a valid dictionary or instance of " ++ name)

end Decoded
end LedgerReport
