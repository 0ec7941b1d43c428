import LedgerReport.Text.Printable
/-!
Quoted text.

A text is written between single quotes, or between double quotes when it holds a single quote and
no double one. Inside, the quote in use and the backslash are written after a backslash, line feed,
carriage return and tab as `\n`, `\r` and `\t`, and any other character that is not printable as
its code point in hexadecimal: two places after `\x`, four after `\u`, eight after `\U`.
-/

set_option autoImplicit false

namespace LedgerReport.Text.Quoted

def hexDigit (n : Nat) : Char :=
  if n < 10 then Char.ofNat (48 + n) else Char.ofNat (87 + n)

def hexPlaces : Nat → Nat → List Char
  | 0, _ => []
  | width + 1, n => hexPlaces width (n / 16) ++ [hexDigit (n % 16)]

theorem length_hexPlaces (width n : Nat) : (hexPlaces width n).length = width := by
  induction width generalizing n with
  | zero => rfl
  | succ w ih => simp [hexPlaces, ih]

def escape (q c : Char) : List Char :=
  if c = q ∨ c = '\\' then ['\\', c]
  else if c = '\n' then ['\\', 'n']
  else if c = '\r' then ['\\', 'r']
  else if c = '\t' then ['\\', 't']
  else if isPrintable c then [c]
  else if c.toNat < 0x100 then '\\' :: 'x' :: hexPlaces 2 c.toNat
  else if c.toNat < 0x10000 then '\\' :: 'u' :: hexPlaces 4 c.toNat
  else '\\' :: 'U' :: hexPlaces 8 c.toNat

def quoteOf (cs : List Char) : Char :=
  if cs.contains '\'' && !cs.contains '"' then '"' else '\''

def encode (cs : List Char) : List Char :=
  quoteOf cs :: (cs.flatMap (escape (quoteOf cs)) ++ [quoteOf cs])

end LedgerReport.Text.Quoted

namespace LedgerReport.Text

def quoted (s : String) : String := String.ofList (Quoted.encode s.toList)

@[simp] theorem toList_quoted (s : String) : (quoted s).toList = Quoted.encode s.toList := by
  simp [quoted]

end LedgerReport.Text
