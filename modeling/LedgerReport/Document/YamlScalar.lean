import LedgerReport.Value
import LedgerReport.Numeral
set_option autoImplicit false

namespace LedgerReport.Yaml

def nullWords : List String := ["~", "null", "Null", "NULL", ""]

def trueWords : List String := ["yes", "Yes", "YES", "true", "True", "TRUE", "on", "On", "ON"]

def falseWords : List String := ["no", "No", "NO", "false", "False", "FALSE", "off", "Off", "OFF"]

def digitsInBase (base : Nat) (cs : List Char) : Nat :=
  (cs.filter (· ≠ '_')).foldl (fun n c =>
    base * n + if c.isDigit then c.toNat - 48 else c.toLower.toNat - 87) 0

def isDigits (cs : List Char) : Bool :=
  match cs with
  | [] => false
  | c :: r => c.isDigit && r.all fun c => c.isDigit || c = '_'

/-- A part of a number in base 60 after the first: one digit, or two from 00 to 59. -/
def isSixtieth (cs : List Char) : Bool :=
  match cs with
  | [c] => c.isDigit
  | [c, d] => '0' ≤ c && c ≤ '5' && d.isDigit
  | _ => false

def colonParts (cs : List Char) : List (List Char) :=
  match cs with
  | [] => [[]]
  | c :: r =>
    match colonParts r with
    | [] => [[c]]
    | p :: ps => if c = ':' then [] :: p :: ps else (c :: p) :: ps

def sixtieths (parts : List (List Char)) : Nat :=
  parts.foldl (fun n p => 60 * n + digitsInBase 10 p) 0

def magnitude? (cs : List Char) : Option Nat :=
  match cs with
  | ['0'] => some 0
  | '0' :: 'b' :: r =>
    if !r.isEmpty && r.all (fun c => c = '0' || c = '1' || c = '_') then some (digitsInBase 2 r)
    else none
  | '0' :: 'x' :: r =>
    if !r.isEmpty && r.all (fun c => c.isDigit || c = '_' || ('a' ≤ c.toLower && c.toLower ≤ 'f'))
    then some (digitsInBase 16 r) else none
  | '0' :: r =>
    if r.all (fun c => ('0' ≤ c && c ≤ '7') || c = '_') then some (digitsInBase 8 r) else none
  | _ =>
    match colonParts cs with
    | [] => none
    | first :: others =>
      if isDigits first && others.all isSixtieth then some (sixtieths (first :: others)) else none

/-- The exponent of a number with a point, which has a sign; no exponent counts too. -/
def isExponent (cs : List Char) : Bool :=
  match cs with
  | [] => true
  | e :: s :: r =>
    (e = 'e' || e = 'E') && (s = '+' || s = '-') && !r.isEmpty && r.all Char.isDigit
  | _ => false

/-- The floating-point number that an unsigned scalar writes; a number without digits before the
point must have no sign in front of it. -/
def real? (signed : Bool) (cs : List Char) : Option Float :=
  let whole := cs.takeWhile (· ≠ '.')
  match cs.dropWhile (· ≠ '.') with
  | '.' :: r =>
    let fraction := r.takeWhile fun c => c.isDigit || c = '_'
    let power := r.dropWhile fun c => c.isDigit || c = '_'
    let digits := (whole ++ '.' :: r).filter (· ≠ '_')
    if whole.isEmpty then
      if !signed && isDigits fraction && isExponent power then
        Numeral.readReal? (String.ofList digits)
      else none
    else if isDigits whole && isExponent power then Numeral.readReal? (String.ofList digits)
    else
      match colonParts whole with
      | first :: second :: others =>
        if isDigits first && (second :: others).all isSixtieth && power.isEmpty then
          (Numeral.readReal? ("0." ++ String.ofList (fraction.filter (· ≠ '_')))).map fun x =>
            Float.ofNat (sixtieths (first :: second :: others)) + x
        else none
      | _ => none
  | _ => none

def isDate (cs : List Char) : Bool :=
  let digits (n : Nat) (cs : List Char) : Bool := cs.length = n && cs.all Char.isDigit
  let oneOrTwo (cs : List Char) : Bool := digits 1 cs || digits 2 cs
  let year := cs.take 4
  match cs.drop 4 with
  | '-' :: r =>
    let month := r.takeWhile Char.isDigit
    match r.dropWhile Char.isDigit with
    | '-' :: r =>
      let day := r.takeWhile Char.isDigit
      let r := r.dropWhile Char.isDigit
      digits 4 year &&
        ((r.isEmpty && digits 2 month && digits 2 day) ||
          (oneOrTwo month && oneOrTwo day && isTime r))
    | _ => false
  | _ => false
where
  isTime (cs : List Char) : Bool :=
    let body := match cs with
      | 'T' :: r => some r
      | 't' :: r => some r
      | ' ' :: r => some (r.dropWhile (· = ' '))
      | _ => none
    match body with
    | some r => match colonParts (r.takeWhile fun c => c.isDigit || c = ':') with
      | [h, m, s] => 1 ≤ h.length && h.length ≤ 2 && m.length = 2 && s.length = 2
      | _ => false
    | none => false

def infinityWords : List String := [".inf", ".Inf", ".INF"]

def nanWords : List String := [".nan", ".NaN", ".NAN"]

/-- The digits of a decimal number, or of its first part in base 60, if they are too many. Numbers
in other bases may have any number of digits. -/
def overlongDigits? (cs : List Char) : Option String :=
  let unsigned := match cs with
    | '-' :: r => r
    | '+' :: r => r
    | r => r
  let digits := (unsigned.takeWhile (· ≠ ':')).filter (· ≠ '_')
  if unsigned.head? ≠ some '0' && (magnitude? unsigned).isSome &&
      Numeral.digitLimit < digits.length then some (String.ofList digits)
  else none

def plainValue (s : String) : Value :=
  if nullWords.contains s then .null
  else if trueWords.contains s then .boolean true
  else if falseWords.contains s then .boolean false
  else if nanWords.contains s then .real (0.0 / 0.0)
  else
    let (negative, signed, body) := match s.toList with
      | '-' :: r => (true, true, r)
      | '+' :: r => (false, true, r)
      | r => (false, false, r)
    if infinityWords.contains (String.ofList body) then
      .real (Decimal.signed negative (1.0 / 0.0))
    else
      match magnitude? body, real? signed body with
      | some n, _ => .whole (if negative then -(n : Int) else n)
      | none, some x => .real (Decimal.signed negative x)
      | none, none => if isDate s.toList then .list [.text s] else .text s

end LedgerReport.Yaml
