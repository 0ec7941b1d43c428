import LedgerReport.Expression.Evaluation
set_option autoImplicit false

namespace LedgerReport

structure Context where
  bindings : Bindings
  stack : Chain

/-- A step in a context, which may fail; what was changed before a failure stays. -/
abbrev Contextual (α : Type) := Attempt Context α

namespace Context

def set (c : Context) (ref : Reference) (a : Amount) : Context :=
  { c with bindings := c.bindings.set ref a }

/-- A step under a reference, which is left again when the step is over, also when it fails. -/
def under {α : Type} (ref : Reference) (step : Contextual α) : Contextual α :=
  ExceptT.mk fun c =>
    match c.stack.enter ref with
    | .error e => (.error e, c)
    | .ok entered =>
      let (outcome, after) := step.run { c with stack := entered }
      (outcome, { after with stack := after.stack.leave })

def lookup (definitions : Option Definitions) (site : Site) (ref : Reference) :
    Contextual Amount := do
  match (← get).bindings.get? ref with
  | some a => return a
  | none =>
    match definitions with
    | none => throw (ref.undefinedError site)
    | some ds =>
      let a ← under ref <|
        match _h : getPair? ref ds with
        | none => throw (ref.undefinedError site)
        | some d => d.resolve fun site ref' => lookup (some (ds.without ref)) site ref'
      modify (·.set ref a)
      return a
termination_by (definitions.getD []).length
decreasing_by exact Definitions.length_without_lt _h

def evaluate (definitions : Option Definitions) (text : String) : Contextual Amount :=
  evaluateWith (fun site ref => lookup definitions site ref) text

/-- The value of an expression that defines a reference, which it must not need itself. -/
def evaluateAs (definitions : Option Definitions) (ref : Reference) (text : String) :
    Contextual Amount :=
  under ref (evaluate definitions text)

end Context

/-- What a context is asked for: the value of an expression, or that of a reference. -/
inductive Ask where
  | evaluate (text : String)
  | lookup (site : Site) (ref : Reference)

def Ask.on (definitions : Option Definitions) : Ask → Contextual Amount
  | .evaluate text => Context.evaluate definitions text
  | .lookup site ref => Context.lookup definitions site ref

def Context.answers (definitions : Option Definitions) :
    Context → List Ask → List (Except Error Amount)
  | _, [] => []
  | c, ask :: rest =>
    let (answer, after) := (ask.on definitions).run c
    answer :: after.answers definitions rest

end LedgerReport
