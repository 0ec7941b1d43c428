import LedgerReport.Expression.Reference
set_option autoImplicit false

namespace LedgerReport

inductive Sign where
  | plus
  | minus
  deriving DecidableEq, Repr

inductive Operator where
  | add
  | subtract
  | multiply
  | divide
  deriving DecidableEq, Repr

inductive Node where
  | literal (x : Float)
  | variableAt (name : String) (position : Nat)
  | orderAt (n : Nat) (position : Nat)
  | signed (sign : Sign) (operand : Node)
  | binary (operator : Operator) (left right : Node)
  deriving DecidableEq

def Sign.text : Sign → String
  | .plus => "+"
  | .minus => "-"

def Operator.text : Operator → String
  | .add => "+"
  | .subtract => "-"
  | .multiply => "*"
  | .divide => "/"

namespace Node

def occurrences : Node → List Reference
  | literal _ => []
  | variableAt name _ => [.name name]
  | orderAt n _ => [.order n]
  | signed _ operand => operand.occurrences
  | binary _ left right => left.occurrences ++ right.occurrences

/-- The references of an expression, each once, in the order of their texts. -/
def references (node : Node) : List Reference :=
  Reference.sorted (node.occurrences.eraseDups)

end Node
end LedgerReport
