import LedgerReport.Expression.Token
import LedgerReport.Expression.Node
import LedgerReport.Numeral
set_option autoImplicit false

namespace LedgerReport

namespace Sign

def ofToken? (t : Token) : Option Sign :=
  if t.kind = .operator then
    match t.chars with
    | ['+'] => some .plus
    | ['-'] => some .minus
    | _ => none
  else none

end Sign

namespace Operator

def ofSumToken? (t : Token) : Option Operator :=
  (Sign.ofToken? t).map fun
    | .plus => .add
    | .minus => .subtract

def ofProductToken? (t : Token) : Option Operator :=
  if t.kind = .operator then
    match t.chars with
    | ['*'] => some .multiply
    | ['/'] => some .divide
    | _ => none
  else none

end Operator

namespace Node
open Text

inductive Stop where
  /-- no expression from a position on, nothing being the end of the text -/
  | fault (position : Option Nat) (fault : ExpressionFault)
  /-- a reference to a row with too many digits -/
  | overlong (digits : String)

def ofOrder (t : Token) : Except Stop Node :=
  let digits := String.ofList (t.chars.drop 1)
  match Numeral.readWhole? digits with
  | some n => .ok (.orderAt n.toNat t.position)
  | none => .error (.overlong digits)

def ofToken? (t : Token) : Option (Except Stop Node) :=
  match t.kind with
  | .number => some (.ok (.literal ((Numeral.readReal? t.text).getD 0.0)))
  | .name => some (.ok (.variableAt t.text t.position))
  | .order => some (ofOrder t)
  | _ => none

abbrev Read (ts : List Token) :=
  Except Stop (Node × { rest : List Token // rest.length < ts.length })

abbrev ReadOn (ts : List Token) :=
  Except Stop (Node × { rest : List Token // rest.length ≤ ts.length })

mutual

def readOperand (ts : List Token) : Read ts :=
  match ts with
  | [] => .error (.fault none .unfinished)
  | t :: r =>
    match Sign.ofToken? t with
    | some sign => do
      let (operand, rest) ← readOperand r
      return (.signed sign operand, ⟨rest.1, Nat.lt_succ_of_lt rest.2⟩)
    | none =>
      match ofToken? t with
      | some leaf => leaf.map fun node => (node, ⟨r, Nat.lt_succ_self _⟩)
      | none =>
        if t.kind = .opening then do
          let (node, rest) ← readSum r
          match rest with
          | ⟨[], _⟩ => .error (.fault none .unclosed)
          | ⟨u :: rest, h⟩ =>
            if u.kind = .closing then
              return (node, ⟨rest, by simp at h ⊢; omega⟩)
            else .error (.fault (some u.position) .unclosed)
        else .error (.fault (some t.position) (.token t.text))
termination_by (ts.length, 0)

def readProductFrom (left : Node) (ts : List Token) : ReadOn ts :=
  match ts with
  | [] => .ok (left, ⟨[], Nat.le_refl _⟩)
  | t :: r =>
    match Operator.ofProductToken? t with
    | some operator => do
      let (right, rest) ← readOperand r
      let (node, rest') ← readProductFrom (.binary operator left right) rest.1
      return (node, ⟨rest'.1, by have := rest.2; have := rest'.2; simp; omega⟩)
    | none => .ok (left, ⟨t :: r, Nat.le_refl _⟩)
termination_by (ts.length, 1)

def readProduct (ts : List Token) : Read ts := do
  let (left, rest) ← readOperand ts
  let (node, rest') ← readProductFrom left rest.1
  return (node, ⟨rest'.1, Nat.lt_of_le_of_lt rest'.2 rest.2⟩)
termination_by (ts.length, 2)
decreasing_by
  · exact Prod.Lex.right _ (by omega)
  · exact Prod.Lex.left _ _ rest.2

def readSumFrom (left : Node) (ts : List Token) : ReadOn ts :=
  match ts with
  | [] => .ok (left, ⟨[], Nat.le_refl _⟩)
  | t :: r =>
    match Operator.ofSumToken? t with
    | some operator => do
      let (right, rest) ← readProduct r
      let (node, rest') ← readSumFrom (.binary operator left right) rest.1
      return (node, ⟨rest'.1, by have := rest.2; have := rest'.2; simp; omega⟩)
    | none => .ok (left, ⟨t :: r, Nat.le_refl _⟩)
termination_by (ts.length, 3)

def readSum (ts : List Token) : Read ts := do
  let (left, rest) ← readProduct ts
  let (node, rest') ← readSumFrom left rest.1
  return (node, ⟨rest'.1, Nat.lt_of_le_of_lt rest'.2 rest.2⟩)
termination_by (ts.length, 4)

end

def ofTokens (ts : List Token) : Except Stop Node :=
  match ts with
  | [] => .error (.fault none .empty)
  | _ => do
    let (node, rest) ← readSum ts
    match rest.1 with
    | [] => .ok node
    | t :: _ =>
      if t.kind = .closing then .error (.fault (some t.position) .unbalanced)
      else .error (.fault (some t.position) (.token t.text))

def read (expression : String) : Except Error Node := do
  let tokens ← Token.read expression
  match ofTokens tokens with
  | .ok node => return node
  | .error (.fault position fault) =>
    .error (.expression expression (position.getD expression.length) fault)
  | .error (.overlong digits) => .error (.notWhole digits)

end Node
end LedgerReport
