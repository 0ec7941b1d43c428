import LedgerReport.Decimal.Binary
/-!
The shortest decimal text of a binary floating-point value.

Of the decimals that read back as the value, the one with the fewest digits is taken, and of those
the nearest. It is written with a point when its first digit stands at or below the sixteenth place
before the point and at or above the fourth after it, and with an exponent of at least two digits
otherwise. A whole value keeps one zero after the point.
-/

set_option autoImplicit false

namespace LedgerReport.Decimal

structure Scaled where
  digits : Nat
  exponent : Int
  deriving DecidableEq, Repr

def compareScaled (a : Nat) (i : Int) (n : Nat) (j : Int) : Ordering :=
  compare (a * tenTo i.toNat * twoTo (-j).toNat) (n * twoTo j.toNat * tenTo (-i).toNat)

/-- Whether a decimal lies among the numbers that round to the positive value `m * 2^q`. The gap
below a power of two is half as wide as the gap above. -/
def readsBack (m : Nat) (q : Int) (d : Scaled) : Bool :=
  let low := if m = twoTo 52 ∧ -1074 < q then 4 * m - 1 else 4 * m - 2
  let high := 4 * m + 2
  let closed := m % 2 == 0
  let atLow := compareScaled d.digits d.exponent low (q - 2)
  let atHigh := compareScaled d.digits d.exponent high (q - 2)
  (atLow == .gt || (closed && atLow == .eq)) && (atHigh == .lt || (closed && atHigh == .eq))

/-- The least `k` with `m * 2^q < 10^k`, searched upward from an estimate below it. -/
def decimalPlace (m : Nat) (q : Int) : Int :=
  let estimate : Int := (((m.log2 : Int) + q) * 30103) / 100000 - 1
  let above (i : Nat) : Bool := compareScaled 1 (estimate + (i : Int)) m q == .gt
  estimate + (((List.range 5).find? above).getD 5 : Nat)

def withDigits? (m : Nat) (q k : Int) (n : Nat) : Option Scaled :=
  let e := k - n
  let num := m * twoTo q.toNat * tenTo (-e).toNat
  let den := twoTo (-q).toNat * tenTo e.toNat
  let below : Scaled := ⟨num / den, e⟩
  let above : Scaled := ⟨num / den + 1, e⟩
  match readsBack m q below, readsBack m q above with
  | true, true =>
    if 2 * num < (below.digits + above.digits) * den then some below
    else if 2 * num = (below.digits + above.digits) * den then
      some (if below.digits % 2 = 0 then below else above)
    else some above
  | true, false => some below
  | false, true => some above
  | false, false => none

def dropZeros (fuel : Nat) (d : Scaled) : Scaled :=
  match fuel with
  | 0 => d
  | fuel + 1 =>
    if d.digits % 10 = 0 ∧ d.digits ≠ 0 then dropZeros fuel ⟨d.digits / 10, d.exponent + 1⟩ else d

/-- The shortest decimal of the positive value `m * 2^q`. Seventeen digits always read back. -/
def shortest (m : Nat) (q : Int) : Scaled :=
  let k := decimalPlace m q
  let found := (List.range 17).findSome? fun i => withDigits? m q k (i + 1)
  dropZeros 20 (found.getD ⟨m * twoTo q.toNat * fiveTo (-q).toNat, min 0 q⟩)

def digitChars (n : Nat) : List Char := Nat.toDigits 10 n

def zeros (n : Nat) : List Char := List.replicate n '0'

def positional (digits : List Char) (place : Int) : List Char :=
  if place ≤ 0 then '0' :: '.' :: (zeros (-place).toNat ++ digits)
  else if digits.length ≤ place.toNat then
    digits ++ zeros (place.toNat - digits.length) ++ ['.', '0']
  else digits.take place.toNat ++ '.' :: digits.drop place.toNat

def exponentChars (e : Int) : List Char :=
  let ds := digitChars e.natAbs
  (if e < 0 then '-' else '+') :: (if ds.length < 2 then '0' :: ds else ds)

def scientific (digits : List Char) (place : Int) : List Char :=
  let tail := digits.drop 1
  digits.take 1 ++ (if tail.isEmpty then [] else '.' :: tail) ++ 'e' :: exponentChars (place - 1)

def Scaled.chars (d : Scaled) : List Char :=
  let ds := digitChars d.digits
  let place := (ds.length : Int) + d.exponent
  if -4 < place ∧ place ≤ 16 then positional ds place else scientific ds place

def Binary.chars : Binary → List Char
  | .nan => ['n', 'a', 'n']
  | .infinite negative => (if negative then ['-'] else []) ++ ['i', 'n', 'f']
  | .finite negative m q =>
    (if negative then ['-'] else []) ++
      (if m = 0 then ['0', '.', '0'] else (shortest m q).chars)

def floatText (x : Float) : String := String.ofList (Binary.ofFloat x).chars

end LedgerReport.Decimal
