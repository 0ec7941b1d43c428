import Std.Data.HashSet
import LedgerReport.Expression.Node
/-!
The set of the references of an expression, and the orders in which it may be gone through.

A set that finds its members by their hashes has no order of its own, and the order in which it is
gone through may differ from one run to the next. Sorted by their texts, its members are in an order
that does not depend on that.
-/

set_option autoImplicit false

namespace LedgerReport
namespace Node

def collect (found : Std.HashSet Reference) : Node → Std.HashSet Reference
  | literal _ => found
  | variableAt name _ => found.insert (.name name)
  | orderAt n _ => found.insert (.order n)
  | signed _ operand => operand.collect found
  | binary _ left right => right.collect (left.collect found)

def referenceSet (node : Node) : Std.HashSet Reference := node.collect ∅

end Node

structure Enumerates (refs : List Reference) (set : Std.HashSet Reference) : Prop where
  nodup : refs.Nodup
  mem_iff : ∀ ref, ref ∈ refs ↔ ref ∈ set

/-- The orders in which the references of all expressions are gone through in a run. -/
structure Enumeration where
  list : Node → List Reference
  enumerates : ∀ node, Enumerates (list node) node.referenceSet

namespace Enumeration

def hashed : Enumeration where
  list node := node.referenceSet.toList
  enumerates _ :=
    ⟨Std.HashSet.distinct_toList.imp fun h => beq_eq_false_iff_ne.1 h,
      fun _ => Std.HashSet.mem_toList⟩

def references (e : Enumeration) (node : Node) : List Reference := Reference.sorted (e.list node)

end Enumeration
end LedgerReport
