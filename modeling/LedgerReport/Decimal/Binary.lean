set_option autoImplicit false

namespace LedgerReport.Decimal

def twoTo (n : Nat) : Nat := Nat.pow 2 n

def fiveTo (n : Nat) : Nat := Nat.pow 5 n

def tenTo (n : Nat) : Nat := Nat.pow 10 n

inductive Binary where
  | nan
  | infinite (negative : Bool)
  | finite (negative : Bool) (significand : Nat) (exponent : Int)
  deriving DecidableEq, Repr

def Binary.ofBits (bits : UInt64) : Binary :=
  let negative := bits.toNat / twoTo 63 == 1
  let e : Nat := bits.toNat / twoTo 52 % twoTo 11
  let f : Nat := bits.toNat % twoTo 52
  if e == 2047 then if f == 0 then .infinite negative else .nan
  else if e == 0 then .finite negative f (-1074)
  else .finite negative (twoTo 52 + f) ((e : Int) - 1075)

def Binary.ofFloat (x : Float) : Binary := .ofBits x.toBits

def roundToEven (num den : Nat) : Nat :=
  let q := num / den
  let r := num % den
  if 2 * r < den then q
  else if 2 * r = den then q + q % 2
  else q + 1

/-- The power of two by which a positive quotient is scaled so that its significand has 53 bits, or
fewer near zero. -/
def binaryScale (num den : Nat) : Int :=
  let e : Int := (num.log2 : Int) - (den.log2 : Int) - 52
  let fits := den * twoTo (52 + e).toNat ≤ num * twoTo (-(52 + e)).toNat
  max (-1074) (if fits then e else e - 1)

/-- The positive value with a significand of at most 53 bits, or infinity beyond the largest. -/
def ofSignificand (m : Nat) (e : Int) : Float :=
  let word := (e + 1074).toNat * twoTo 52 + m
  if 2047 * twoTo 52 ≤ word then Float.ofBits 0x7FF0000000000000
  else Float.ofBits word.toUInt64

def nearest (num den : Nat) : Float :=
  if num = 0 then 0.0
  else
    let e := binaryScale num den
    ofSignificand (roundToEven (num * twoTo (-e).toNat) (den * twoTo e.toNat)) e

def signed (negative : Bool) (x : Float) : Float := if negative then -x else x

/-- The value nearest to a whole number; `none` beyond the largest finite value. -/
def ofWhole? (n : Int) : Option Float :=
  let x := nearest n.natAbs 1
  if x.isInf then none else some (signed (n < 0) x)

/-- The value nearest to a quotient of whole numbers; `none` beyond the largest finite value. -/
def ofQuotient? (a b : Int) : Option Float :=
  let x := nearest a.natAbs b.natAbs
  if x.isInf then none else some (signed (xor (a < 0) (b < 0)) x)

def Binary.truncate? : Binary → Option Int
  | .finite negative m e =>
    let n : Int := if 0 ≤ e then m * twoTo e.toNat else m / twoTo (-e).toNat
    some (if negative then -n else n)
  | _ => none

def Binary.whole? (b : Binary) : Option Int :=
  match b with
  | .finite _ m e => if e < 0 ∧ m % twoTo (-e).toNat ≠ 0 then none else b.truncate?
  | _ => none

/-- Order of a whole number and a value, exactly; `none` against a value that is no number. -/
def compareWhole (n : Int) : Binary → Option Ordering
  | .nan => none
  | .infinite negative => some (if negative then .gt else .lt)
  | .finite negative m e =>
    let s : Int := if negative then -m else m
    some (compare (n * twoTo (-e).toNat) (s * twoTo e.toNat))

end LedgerReport.Decimal
