import LedgerReport.Text.Basic
import LedgerReport.Text.Quoted
import LedgerReport.Decimal.Binary
set_option autoImplicit false

namespace LedgerReport.Numeral
open Text Decimal

/-- The digits at the start of a text, with single underscores between digits passed over, and
what follows them. -/
def spanDigits (afterDigit : Bool) : List Char → List Nat × List Char
  | [] => ([], [])
  | c :: r =>
    match digitValue? c with
    | some d => ((spanDigits true r).map (d :: ·) id)
    | none =>
      if c = '_' ∧ afterDigit = true ∧ ((r.head?).bind digitValue?).isSome then spanDigits false r
      else ([], c :: r)

def ofDigits (ds : List Nat) : Nat := ds.foldl (fun n d => 10 * n + d) 0

def splitSign : List Char → Bool × List Char
  | '-' :: r => (true, r)
  | '+' :: r => (false, r)
  | r => (false, r)

def signedDigits? (cs : List Char) : Option (Bool × List Nat) :=
  let (negative, body) := splitSign cs
  match spanDigits false body with
  | ([], _) => none
  | (ds, []) => some (negative, ds)
  | _ => none

def ofSignedDigits (p : Bool × List Nat) : Int :=
  if p.1 then -(ofDigits p.2 : Int) else ofDigits p.2

def digitLimit : Nat := 4300

def readWhole? (s : String) : Option Int :=
  (signedDigits? (unpadded s.toList)).bind fun p =>
    if p.2.length ≤ digitLimit then some (ofSignedDigits p) else none

/-- How many digits a text has, if they are too many to be read. They are counted before what
follows them is looked at, unless that is an underscore. -/
def excess? (s : String) : Option Nat :=
  let (ds, rest) := spanDigits false (splitSign (unpadded s.toList)).2
  if digitLimit < ds.length ∧ rest.head? ≠ some '_' then some ds.length else none

def isWritable (n : Int) : Bool := n.natAbs < tenTo digitLimit

def limitText (digits : String) : String :=
  "Exceeds the limit (" ++ toString digitLimit ++ " digits) for integer string conversion" ++
    digits ++ "; use sys.set_int_max_str_digits() to increase the limit"

/-- How a text is refused that writes no whole number, or one with too many digits. The text is
shown in part: at most 200 characters of its quoted form. -/
def refusal (s : String) : String :=
  match excess? s with
  | some n => limitText (": value has " ++ toString n ++ " digits")
  | none => "invalid literal for int() with base 10: " ++
      String.ofList ((Quoted.encode s.toList).take 200)

/-- The value nearest to `n * 10^e`. Far outside the range of values the digits do not matter. -/
def nearestDecimal (n : Nat) (e : Int) : Float :=
  if n = 0 then 0.0
  else
    let place := ((Nat.toDigits 10 n).length : Int) + e
    if 400 < place then 1.0 / 0.0
    else if place < -400 then 0.0
    else nearest (n * tenTo e.toNat) (tenTo (-e).toNat)

def readExponent? : List Char → Option Int
  | [] => some 0
  | c :: r =>
    if c = 'e' ∨ c = 'E' then (signedDigits? r).map ofSignedDigits else none

/-- The parts of an unsigned decimal numeral: its digits as one number, and its exponent. -/
def readDecimal? (body : List Char) : Option (Nat × Int) :=
  let (whole, r) := spanDigits false body
  let (fraction, r) := match r with
    | '.' :: r => spanDigits false r
    | r => ([], r)
  if whole.isEmpty && fraction.isEmpty then none
  else (readExponent? r).map fun e => (ofDigits (whole ++ fraction), e - fraction.length)

def readWord? (body : List Char) : Option Float :=
  let word := body.map Char.toLower
  if word = "inf".toList ∨ word = "infinity".toList then some (1.0 / 0.0)
  else if word = "nan".toList then some (0.0 / 0.0)
  else none

def readReal? (s : String) : Option Float :=
  let (negative, body) := splitSign (unpadded s.toList)
  ((readWord? body).or ((readDecimal? body).map fun p => nearestDecimal p.1 p.2)).map
    (signed negative)

end LedgerReport.Numeral
