import LedgerReport.Decimal.Binary
set_option autoImplicit false

namespace LedgerReport.Decimal

def appendDigits (x : Float) (cs : List Char) : Float :=
  cs.foldl (fun x c => x * 10.0 + (c.toNat - 48).toFloat) x

def powerOfTen (e : Int) : Float :=
  if 308 < e then 1.0 / 0.0
  else if e < -400 then 0.0
  else nearest (tenTo e.toNat) (tenTo (-e).toNat)

/-- A decimal as it is written: its digits before and after the point, and the exponent. -/
structure Written where
  negative : Bool
  whole : List Char
  fraction : List Char
  power : Int

namespace Written

def exponentOf (cs : List Char) : Int :=
  let magnitude (ds : List Char) : Int := (ds.foldl (fun n c => 10 * n + (c.toNat - 48)) 0 : Nat)
  match cs with
  | '-' :: r => -magnitude r
  | '+' :: r => magnitude r
  | r => magnitude r

def precision : Nat := 17

/-- The value as seventeen digits that are scaled by a power of ten; `none` beyond the largest
finite value. -/
def scaled? (w : Written) : Option Float :=
  let before := w.whole.take precision
  let after := w.fraction.take (precision - before.length)
  let digits := appendDigits 0.0 (before ++ after)
  let e : Int := w.power + (w.whole.length - before.length : Nat) - after.length
  let x :=
    if 308 < e then 1.0 / 0.0
    else if 0 < e then digits * powerOfTen e
    else if e < -616 then 0.0
    else if e < -308 then digits / powerOfTen (-308 - e) / powerOfTen 308
    else digits / powerOfTen (-e)
  if x.isInf then none else some (signed w.negative x)

def places : Nat := 15

/-- The value as the sum of a whole number and of a fraction, times a power of ten. -/
def summed (w : Written) : Float :=
  let whole := nearest (w.whole.foldl (fun n c => 10 * n + (c.toNat - 48)) 0) 1
  let after := w.fraction.take places
  let x := whole + appendDigits 0.0 after * powerOfTen (-after.length)
  let x := signed w.negative x
  if w.power = 0 then x else x * powerOfTen w.power

end Written
end LedgerReport.Decimal
