import LedgerReport.Movement.Dataset
set_option autoImplicit false

namespace LedgerReport.Sign

def codeNumber? (code : Value) : Option Int := Numeral.readWhole? (Text.trim code.display)

def isLiability (code : Value) : Bool :=
  match codeNumber? code with
  | some n => 60 ≤ n && n ≤ 90
  | none => false

def isAsset (code : Value) : Bool :=
  match codeNumber? code with
  | some n => 0 ≤ n && n ≤ 50
  | none => false

def multiplier (code : Value) : Int := if isLiability code then -1 else 1

def shown (m : Movement) : Movement :=
  if isLiability m.code1 then { m with amount := m.amount.map Number.neg } else m

end LedgerReport.Sign

namespace LedgerReport.Dataset

def withSignConvention (d : Dataset) : Dataset :=
  ⟨d.movements.map Sign.shown, d.source ++ "+signed"⟩

end LedgerReport.Dataset
