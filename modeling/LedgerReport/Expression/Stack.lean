import Std.Data.ExtHashSet
import LedgerReport.Expression.Evaluation
/-!
The stack of references under resolution, and the blocks that use it.

A stack keeps its references twice: as a chain in the order in which they were entered, and as a set
in which a reference is looked up. A block starts by entering a reference and is refused if that is
active. When the block ends, well or with an error, the last reference is taken off the chain, and
the one that the block has entered is taken out of the set.
-/

set_option autoImplicit false

namespace LedgerReport

/-- The references under resolution, as a chain with the innermost last and as a set. -/
structure Stack where
  chain : Chain
  active : Std.ExtHashSet Reference

namespace Stack

def empty : Stack := ⟨[], ∅⟩

def contains (s : Stack) (ref : Reference) : Bool := s.active.contains ref

def refusal (s : Stack) (ref : Reference) : Error :=
  match s.chain.idxOf? ref with
  | some start => .circularDependency ((s.chain.drop start ++ [ref]).map Reference.text)
  | none => .foreign true (ref.text ++ " is not in list")

def enter (ref : Reference) : Attempt Stack Unit := do
  let s ← get
  if s.contains ref then throw (s.refusal ref)
  else
    modify fun s => { s with chain := s.chain ++ [ref] }
    modify fun s => { s with active := s.active.insert ref }

def leave (ref : Reference) : Attempt Stack Unit := do
  let s ← get
  if s.chain.isEmpty then throw (.foreign false "pop from empty list")
  else
    modify fun s => { s with chain := s.chain.dropLast }
    modify fun s => { s with active := s.active.erase ref }

/-- Ends the block that has entered a reference, with the outcome of what was done in it. -/
def close (ref : Reference) (outcome : Except Error Unit) : Attempt Stack Unit :=
  try
    match outcome with
    | .ok _ => pure ()
    | .error e => throw e
  finally leave ref

end Stack

/-- A block tries to enter a reference, or the innermost block ends with an outcome. -/
inductive BlockEvent where
  | enter (ref : Reference)
  | exit (outcome : Except Error Unit)

/-- A stack, and the references that were entered by the blocks which have not ended, the innermost
first. -/
structure Nesting where
  stack : Stack
  blocks : List Reference

namespace Nesting

def start : Nesting := ⟨.empty, []⟩

/-- What an event comes to, and the state after it. Where there is no block, none ends. -/
def next (n : Nesting) : BlockEvent → Except Error Unit × Nesting
  | .enter ref =>
    match (Stack.enter ref).run n.stack with
    | (.ok _, stack) => (.ok (), ⟨stack, ref :: n.blocks⟩)
    | (.error e, stack) => (.error e, ⟨stack, n.blocks⟩)
  | .exit outcome =>
    match n.blocks with
    | [] => (.ok (), n)
    | ref :: blocks =>
      let (outcome, stack) := (Stack.close ref outcome).run n.stack
      (outcome, ⟨stack, blocks⟩)

def after (n : Nesting) (events : List BlockEvent) : Nesting :=
  events.foldl (fun n event => (n.next event).2) n

end Nesting
end LedgerReport
