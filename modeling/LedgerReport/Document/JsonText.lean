import LedgerReport.Value
set_option autoImplicit false

namespace LedgerReport.JsonText

def unitEscape (n : Nat) : List Char := '\\' :: 'u' :: Text.Quoted.hexPlaces 4 n

def escape (c : Char) : List Char :=
  if c = '"' ∨ c = '\\' then ['\\', c]
  else if c = '\n' then ['\\', 'n']
  else if c = '\r' then ['\\', 'r']
  else if c = '\t' then ['\\', 't']
  else if c = '\x08' then ['\\', 'b']
  else if c = '\x0c' then ['\\', 'f']
  else if 32 ≤ c.toNat ∧ c.toNat < 127 ∨ c.toNat = 127 then [c]
  else if c.toNat < 0x10000 then unitEscape c.toNat
  else
    unitEscape (0xD800 + (c.toNat - 0x10000) / 0x400) ++
      unitEscape (0xDC00 + (c.toNat - 0x10000) % 0x400)

def text (s : String) : String := String.ofList ('"' :: (s.toList.flatMap escape ++ ['"']))

/-- A number; values that are no finite number are written as words. -/
def number : Number → String
  | .whole n => toString n
  | .real x =>
    if x.isNaN then "NaN"
    else if x.isInf then (if x < 0 then "-Infinity" else "Infinity")
    else Decimal.floatText x

def name : Key → String
  | .text s => s
  | .number n => number n
  | .boolean b => if b then "true" else "false"
  | .null => "null"

/-- The break before an item `depth` levels deep; on one line there is none. -/
def lineBreak (indented : Bool) (depth : Nat) : String :=
  if indented then "\n" ++ String.ofList (List.replicate (2 * depth) ' ') else ""

def bracketed (indented : Bool) (depth : Nat) (opening closing : String) (items : List String) :
    String :=
  if items.isEmpty then opening ++ closing
  else
    let separator := if indented then "," ++ lineBreak indented (depth + 1) else ", "
    opening ++ lineBreak indented (depth + 1) ++ String.intercalate separator items ++
      lineBreak indented depth ++ closing

mutual

def render (indented : Bool) (depth : Nat) : Value → String
  | .null => "null"
  | .boolean b => if b then "true" else "false"
  | .number n => number n
  | .text s => text s
  | .list items => bracketed indented depth "[" "]" (renderItems indented (depth + 1) items)
  | .map entries =>
    bracketed indented depth "\x7b" "\x7d" (renderEntries indented (depth + 1) entries)

def renderItems (indented : Bool) (depth : Nat) : List Value → List String
  | [] => []
  | v :: r => render indented depth v :: renderItems indented depth r

def renderEntries (indented : Bool) (depth : Nat) : List (Key × Value) → List String
  | [] => []
  | (k, v) :: r =>
    (text (name k) ++ ": " ++ render indented depth v) :: renderEntries indented depth r

end

def compact (v : Value) : String := render false 0 v

def indented (v : Value) : String := render true 0 v

end LedgerReport.JsonText
