import LedgerReport.Numeral
import LedgerReport.Number
/-!
Decimals with a fixed number of places.

A quantity is rounded to the nearest multiple of a power of ten, a half going away from zero, and
written with that many places. At most 28 digits are kept; a quantity that needs more has no such
text, and neither has an infinite one. A quantity that rounds to zero has no sign. What is not a
number may carry digits of its own, of which the last 28 are kept. Units beyond the range of
decimal exponents are refused.
-/

set_option autoImplicit false

namespace LedgerReport.Decimal

inductive Quantity where
  | finite (negative : Bool) (magnitude : Scaled)
  | infinite (negative : Bool)
  | notANumber (negative signalling : Bool) (payload : Nat)
  deriving DecidableEq, Repr

inductive FixedFault where
  | outOfRange
  | negativePlaces
  deriving DecidableEq, Repr

def Binary.quantity : Binary → Quantity
  | .nan => .notANumber false false 0
  | .infinite negative => .infinite negative
  | .finite negative m q => .finite negative (if m = 0 then ⟨0, 0⟩ else shortest m q)

def Quantity.ofNumber : Number → Quantity
  | .whole n => .finite (n < 0) ⟨n.natAbs, 0⟩
  | .real x => (Binary.ofFloat x).quantity

/-- The decimal that a text writes, underscores left out. Exponents far beyond the digits kept are
brought nearer, which changes no rounding. -/
def Quantity.ofText? (s : String) : Option Quantity :=
  let (negative, body) := Numeral.splitSign ((Text.trimChars s.toList).filter (· ≠ '_'))
  let word := body.map Char.toLower
  let digits := word.dropWhile fun c => !Text.isDecimalDigit c
  let payload := Text.digitsValue? digits
  let letters := word.takeWhile fun c => !Text.isDecimalDigit c
  if word = "inf".toList ∨ word = "infinity".toList then some (.infinite negative)
  else if letters = "nan".toList then payload.map (.notANumber negative false)
  else if letters = "snan".toList then payload.map (.notANumber negative true)
  else (Numeral.readDecimal? body).map fun (n, e) =>
    .finite negative ⟨n, max (-(2000 + body.length : Int)) (min 2000 e)⟩

def roundHalfUp (num den : Nat) : Nat := (2 * num + den) / (2 * den)

def Scaled.units (d : Scaled) (places : Int) : Nat :=
  let e := d.exponent + places
  roundHalfUp (d.digits * tenTo e.toNat) (tenTo (-e).toNat)

def grouped : List Char → List Char
  | [] => []
  | c :: r => if r.length % 3 = 0 ∧ r ≠ [] then c :: ',' :: grouped r else c :: grouped r

def unitChars (thousands : Bool) (places units : Nat) : List Char :=
  let ds := digitChars units
  let ds := zeros (places + 1 - ds.length) ++ ds
  let whole := ds.take (ds.length - places)
  let fraction := ds.drop (ds.length - places)
  (if thousands then grouped whole else whole) ++
    (if fraction.isEmpty then [] else '.' :: fraction)

def UnitInRange (places : Int) : Prop := -999999 ≤ places ∧ places ≤ 2000054

instance (places : Int) : Decidable (UnitInRange places) :=
  inferInstanceAs (Decidable (_ ∧ _))

def fixedInRange (places : Int) (thousands : Bool) : Quantity → Except FixedFault (List Char)
  | .infinite _ => .error .outOfRange
  | .notANumber _ true _ => .error .outOfRange
  | .notANumber negative false payload =>
    if places < 0 then .error .negativePlaces
    else
      let kept := payload % tenTo 28
      .ok ((if negative then ['-'] else []) ++ ['N', 'a', 'N'] ++
        (if kept = 0 then [] else digitChars kept))
  | .finite negative d =>
    let m := d.units places
    if tenTo 28 ≤ m then .error .outOfRange
    else if places < 0 then .error .negativePlaces
    else .ok ((if negative = true ∧ m ≠ 0 then ['-'] else []) ++ unitChars thousands places.toNat m)

def fixed (places : Int) (thousands : Bool) (q : Quantity) : Except FixedFault (List Char) :=
  if UnitInRange places then fixedInRange places thousands q else .error .outOfRange

end LedgerReport.Decimal
