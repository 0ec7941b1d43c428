import LedgerReport.Value
import LedgerReport.Numeral
/-!
Reading JSON text.

Besides the standard forms the words `NaN`, `Infinity` and `-Infinity` are numbers. A number with
a fraction or an exponent is a floating-point value, any other a whole number. When an object
gives a key twice the last value counts, in the place of the first. A fault carries the position
of the character at which reading stopped.
-/

set_option autoImplicit false

namespace LedgerReport.Json

inductive Reason where
  | byteOrderMark
  | value
  | extraData
  | propertyName
  | colon
  | comma
  | unterminated
  | control
  | escape
  | unicodeEscape
  deriving DecidableEq, Repr

def Reason.message : Reason → String
  | .byteOrderMark => "Unexpected UTF-8 BOM (decode using utf-8-sig)"
  | .value => "Expecting value"
  | .extraData => "Extra data"
  | .propertyName => "Expecting property name enclosed in double quotes"
  | .colon => "Expecting ':' delimiter"
  | .comma => "Expecting ',' delimiter"
  | .unterminated => "Unterminated string starting at"
  | .control => "Invalid control character at"
  | .escape => "Invalid \\escape"
  | .unicodeEscape => "Invalid \\uXXXX escape"

inductive Fault where
  /-- no JSON from a position on, which is counted in characters -/
  | malformed (reason : Reason) (position : Nat)
  /-- a whole number with too many digits -/
  | overlong (digits : String)
  deriving DecidableEq, Repr

def lineOf (cs : List Char) (position : Nat) : Nat := (cs.take position).count '\n' + 1

def columnOf (cs : List Char) (position : Nat) : Nat :=
  ((cs.take position).reverse.takeWhile (· ≠ '\n')).length + 1

structure Cursor where
  rest : List Char
  position : Nat

def isSpace (c : Char) : Bool := c = ' ' || c = '\t' || c = '\n' || c = '\r'

def Cursor.skip (c : Cursor) : Cursor :=
  ⟨c.rest.dropWhile isSpace, c.position + (c.rest.takeWhile isSpace).length⟩

def Cursor.advance (c : Cursor) (n : Nat) : Cursor := ⟨c.rest.drop n, c.position + n⟩

def Cursor.fail {α : Type} (c : Cursor) (r : Reason) : Except Fault α :=
  .error (.malformed r c.position)

def hexValue? (c : Char) : Option Nat :=
  if '0' ≤ c ∧ c ≤ '9' then some (c.toNat - 48)
  else if 'a' ≤ c ∧ c ≤ 'f' then some (c.toNat - 87)
  else if 'A' ≤ c ∧ c ≤ 'F' then some (c.toNat - 55)
  else none

/-- The number written by the first four hexadecimal digits, which another character follows. -/
def hexQuad? : List Char → Option Nat
  | a :: b :: c :: d :: _ :: _ => do
    let a ← hexValue? a
    let b ← hexValue? b
    let c ← hexValue? c
    let d ← hexValue? d
    pure (((a * 16 + b) * 16 + c) * 16 + d)
  | _ => none

def shortEscape? : Char → Option Char
  | '"' => some '"'
  | '\\' => some '\\'
  | '/' => some '/'
  | 'b' => some '\x08'
  | 'f' => some '\x0c'
  | 'n' => some '\n'
  | 'r' => some '\r'
  | 't' => some '\t'
  | _ => none

/-- The character of a code unit, with the low half of a pair if one follows, and the number of
characters that its escape takes after the `u`. -/
def unitChar (high : Nat) (rest : List Char) : Char × Nat :=
  match rest with
  | '\\' :: 'u' :: r =>
    match hexQuad? r with
    | some low =>
      if 0xD800 ≤ high ∧ high < 0xDC00 ∧ 0xDC00 ≤ low ∧ low < 0xE000 then
        (Char.ofNat (0x10000 + (high - 0xD800) * 0x400 + (low - 0xDC00)), 10)
      else (unpaired high, 4)
    | none => (unpaired high, 4)
  | _ => (unpaired high, 4)
where
  unpaired (n : Nat) : Char :=
    if 0xD800 ≤ n ∧ n < 0xE000 then Char.ofNat 0xFFFD else Char.ofNat n

/-- The characters up to the closing quote; `start` is the position of the opening one. -/
def readChars (start : Nat) : Nat → Cursor → Except Fault (List Char × Cursor)
  | 0, _ => .error (.malformed .unterminated start)
  | fuel + 1, c =>
    match c.rest with
    | [] => .error (.malformed .unterminated start)
    | '"' :: _ => .ok ([], c.advance 1)
    | ['\\'] => .error (.malformed .unterminated start)
    | '\\' :: 'u' :: r =>
      match hexQuad? r with
      | none => (c.advance 1).fail .unicodeEscape
      | some n =>
        let (ch, width) := unitChar n (r.drop 4)
        (readChars start fuel (c.advance (2 + width))).map fun p => (ch :: p.1, p.2)
    | '\\' :: e :: _ =>
      match shortEscape? e with
      | none => c.fail .escape
      | some ch => (readChars start fuel (c.advance 2)).map fun p => (ch :: p.1, p.2)
    | ch :: _ =>
      if ch.toNat < 32 then c.fail .control
      else (readChars start fuel (c.advance 1)).map fun p => (ch :: p.1, p.2)

def readText (c : Cursor) : Except Fault (String × Cursor) :=
  (readChars c.position c.rest.length (c.advance 1)).map fun p => (String.ofList p.1, p.2)

/-- The characters of the number at the start of a text: a sign, digits without a zero in front,
and perhaps a fraction and an exponent. The flag tells a whole number. -/
def spanNumber? (cs : List Char) : Option (List Char × Bool) :=
  let (sign, r) := match cs with
    | '-' :: r => (['-'], r)
    | r => ([], r)
  let digits := match r with
    | '0' :: _ => ['0']
    | r => r.takeWhile Char.isDigit
  if digits.isEmpty then none
  else
    let r := r.drop digits.length
    let fraction := match r with
      | '.' :: r => match r.takeWhile Char.isDigit with
        | [] => []
        | ds => '.' :: ds
      | _ => []
    let r := r.drop fraction.length
    let power := match r with
      | e :: r => if e = 'e' ∨ e = 'E' then
          let sign := match r with
            | s :: _ => if s = '+' ∨ s = '-' then [s] else []
            | [] => []
          match (r.drop sign.length).takeWhile Char.isDigit with
          | [] => []
          | ds => e :: (sign ++ ds)
        else []
      | [] => []
    some (sign ++ digits ++ fraction ++ power, fraction.isEmpty && power.isEmpty)

/-- The value of the characters of a number, of which the flag tells whether it is whole. -/
abbrev NumberRule := List Char → Bool → Except Fault Value

def exactNumber : NumberRule := fun cs isWhole =>
  let s := String.ofList cs
  if isWhole then
    match Numeral.readWhole? s with
    | some n => .ok (.whole n)
    | none => .error (.overlong s)
  else .ok (.real ((Numeral.readReal? s).getD 0.0))

def readNumber (rule : NumberRule) (c : Cursor) : Except Fault (Value × Cursor) :=
  match spanNumber? c.rest with
  | none => c.fail .value
  | some (cs, isWhole) => (rule cs isWhole).map fun v => (v, c.advance cs.length)

def words : List (List Char × Value) := [
  ("null".toList, .null), ("true".toList, .boolean true), ("false".toList, .boolean false),
  ("NaN".toList, .real (0.0 / 0.0)), ("Infinity".toList, .real (1.0 / 0.0)),
  ("-Infinity".toList, .real (-(1.0 / 0.0)))]

mutual

def readValue (rule : NumberRule) : Nat → Cursor → Except Fault (Value × Cursor)
  | 0, c => c.fail .value
  | fuel + 1, c =>
    match c.rest with
    | '"' :: _ => (readText c).map fun p => (.text p.1, p.2)
    | '{' :: _ =>
      let c := (c.advance 1).skip
      match c.rest with
      | '}' :: _ => .ok (.map [], c.advance 1)
      | _ => (readEntries rule fuel c []).map fun p => (.map p.1, p.2)
    | '[' :: _ =>
      let c := (c.advance 1).skip
      match c.rest with
      | ']' :: _ => .ok (.list [], c.advance 1)
      | _ => (readItems rule fuel c).map fun p => (.list p.1, p.2)
    | _ =>
      match words.find? fun w => w.1.isPrefixOf c.rest with
      | some w => .ok (w.2, c.advance w.1.length)
      | none => readNumber rule c

def readItems (rule : NumberRule) : Nat → Cursor → Except Fault (List Value × Cursor)
  | 0, c => c.fail .value
  | fuel + 1, c => do
    let (v, c) ← readValue rule fuel c
    let c := c.skip
    match c.rest with
    | ']' :: _ => .ok ([v], c.advance 1)
    | ',' :: _ => (readItems rule fuel (c.advance 1).skip).map fun p => (v :: p.1, p.2)
    | _ => c.fail .comma

/-- The entries of an object from the cursor to its end, after those already read. -/
def readEntries (rule : NumberRule) : Nat → Cursor → Entries → Except Fault (Entries × Cursor)
  | 0, c, _ => c.fail .propertyName
  | fuel + 1, c, before =>
    match c.rest with
    | '"' :: _ => do
      let (name, c) ← readText c
      let c := c.skip
      match c.rest with
      | ':' :: _ => do
        let (v, c) ← readValue rule fuel (c.advance 1).skip
        let c := c.skip
        let entries := before.insert (.text name) v
        match c.rest with
        | '}' :: _ => .ok (entries, c.advance 1)
        | ',' :: _ => readEntries rule fuel (c.advance 1).skip entries
        | _ => c.fail .comma
      | _ => c.fail .colon
    | _ => c.fail .propertyName

end

def readWith (rule : NumberRule) (text : String) : Except Fault Value :=
  let cs := text.toList
  match cs with
  | '\ufeff' :: _ => .error (.malformed .byteOrderMark 0)
  | _ => do
    let (v, c) ← readValue rule (2 * cs.length + 2) (Cursor.mk cs 0).skip
    let c := c.skip
    if c.rest.isEmpty then .ok v else c.fail .extraData

def read (text : String) : Except Fault Value := readWith exactNumber text

end LedgerReport.Json
