import LedgerReport.Report.Basic
import LedgerReport.Expression.Evaluation
/-!
What the rows of a report need.

A calculated row needs the references of its expression, a row of a variable the variable, and a
subtotal the rows in its range that are neither spacers nor subtotals. The graph is searched in
depth for a chain of references that returns to its start. A row is used up while what it needs is
visited, so the search ends.
-/

set_option autoImplicit false

namespace LedgerReport

abbrev Graph := List (Reference × List Reference)

namespace Graph

def without (g : Graph) (ref : Reference) : Graph := g.filter fun e => e.1 ≠ ref

theorem length_without_lt {g : Graph} {ref : Reference} {needs : List Reference}
    (h : getPair? ref g = some needs) : (g.without ref).length < g.length := by
  unfold getPair? at h
  obtain ⟨p, hp, -⟩ := Option.map_eq_some_iff.1 h
  refine List.length_filter_lt_length_iff_exists.2 ⟨p, List.mem_of_find?_eq_some hp, ?_⟩
  simpa using List.find?_some hp

/-- Visits a reference and all that it needs, given the references that are done with; these are
returned with the new ones. -/
def visit (g : Graph) (chain : Chain) (done : List Reference) (ref : Reference) :
    Except Error (List Reference) :=
  if ref ∈ done then .ok done
  else
    match chain.enter ref with
    | .error e => .error e
    | .ok chain =>
      match _h : getPair? ref g with
      | none => .ok (done ++ [ref])
      | some needs => do
        let done ← needs.foldlM (fun done need => visit (g.without ref) chain done need) done
        return done ++ [ref]
termination_by g.length
decreasing_by exact length_without_lt _h

/-- Visits every row; a chain that returns to its start is an error. -/
def checkCycles (g : Graph) : Except Error Unit := do
  let _ ← (g.map (·.1)).foldlM (fun done ref => visit g [] done ref) []
  return ()

end Graph

def Item.isSummed (i : Item) : Bool :=
  match i.content with
  | .spacer | .subtotal .. => false
  | _ => true

namespace Report

def needsOf (layout : List Item) (item : Item) : Except Error (List Reference) :=
  match item.content with
  | .calculated expression => (Node.read expression).map Node.references
  | .ofVariable name => .ok [.name name]
  | .subtotal first last => .ok <| (layout.filter fun member =>
      first ≤ member.order && member.order ≤ last && Item.isSummed member).map
        fun member => .order member.order
  | .category _ | .spacer => .ok []

def graph (r : Report) : Except Error Graph :=
  r.sortedLayout.foldlM (fun g item => do
    let needs ← needsOf r.sortedLayout item
    return setPair (.order item.order) needs g) []

def checkForward (r : Report) : Except Error Unit :=
  r.sortedLayout.forM fun item =>
    match item.content with
    | .calculated expression => do
      let node ← Node.read expression
      node.references.forM fun
        | .order n =>
          if item.order < n then .error (.forwardReference item.order n (some expression))
          else .ok ()
        | .name _ => .ok ()
    | _ => .ok ()

end Report
end LedgerReport
