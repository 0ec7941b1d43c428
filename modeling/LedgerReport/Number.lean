import LedgerReport.Decimal.Shortest
set_option autoImplicit false

namespace LedgerReport
open Decimal

inductive Number where
  | whole (n : Int)
  | real (x : Float)
  deriving DecidableEq

/-- The value of a row or a variable; `none` is a value that is not available. -/
abbrev Amount := Option Number

inductive Overflow where
  | whole
  | quotient
  deriving DecidableEq, Repr

namespace Number

instance : Inhabited Number := ⟨.whole 0⟩

def text : Number → String
  | whole n => toString n
  | real x => floatText x

def toFloat : Number → Except Overflow Float
  | whole n => match ofWhole? n with
    | some x => .ok x
    | none => .error .whole
  | real x => .ok x

def isNaN : Number → Bool
  | whole _ => false
  | real x => x.isNaN

def isZero : Number → Bool
  | whole n => n == 0
  | real x => x == 0.0

def neg : Number → Number
  | whole n => whole (-n)
  | real x => real (-x)

def abs : Number → Number
  | whole n => whole n.natAbs
  | real x => real x.abs

def lift (onWhole : Int → Int → Int) (onReal : Float → Float → Float) :
    Number → Number → Except Overflow Number
  | whole m, whole n => .ok (whole (onWhole m n))
  | real x, real y => .ok (real (onReal x y))
  | whole m, real y => (toFloat (whole m)).map fun x => real (onReal x y)
  | real x, whole n => (toFloat (whole n)).map fun y => real (onReal x y)

def add : Number → Number → Except Overflow Number := lift (· + ·) (· + ·)

def sub : Number → Number → Except Overflow Number := lift (· - ·) (· - ·)

def mul : Number → Number → Except Overflow Number := lift (· * ·) (· * ·)

def div : Number → Number → Except Overflow Number
  | whole m, whole n => match ofQuotient? m n with
    | some x => .ok (real x)
    | none => .error .quotient
  | a, b => lift (· / ·) (· / ·) a b

/-- The exact order of two numbers; `none` if one of them is not a number. -/
def order : Number → Number → Option Ordering
  | whole m, whole n => some (compare m n)
  | whole m, real y => compareWhole m (Binary.ofFloat y)
  | real x, whole n => (compareWhole n (Binary.ofFloat x)).map Ordering.swap
  | real x, real y =>
    if x < y then some .lt else if y < x then some .gt else if x == y then some .eq else none

def lt (a b : Number) : Bool := order a b == some .lt

def le (a b : Number) : Bool := order a b == some .lt || order a b == some .eq

def same (a b : Number) : Bool := order a b == some .eq

def truncate? : Number → Option Int
  | whole n => some n
  | real x => (Binary.ofFloat x).truncate?

def whole? : Number → Option Int
  | whole n => some n
  | real x => (Binary.ofFloat x).whole?

end Number
end LedgerReport
