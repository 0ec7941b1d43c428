import LedgerReport.Expression.Enumeration
import LedgerReport.Report.Validation
set_option autoImplicit false

namespace LedgerReport
namespace Enumeration

def expressionIssues (e : Enumeration) (r : Report) (path expression : String) :
    Except Error (List Issue) :=
  let path := path ++ ".expression"
  Report.expressionIssues path expression fun node => r.referenceIssues path (e.references node)

def itemIssues (e : Enumeration) (r : Report) (index : Nat) (item : Item) :
    Except Error (List Issue) :=
  match item.content with
  | .calculated expression => e.expressionIssues r (Report.itemPath index) expression
  | _ => r.itemIssues index item

def issues (e : Enumeration) (r : Report) : Except Error (List Issue) := do
  let ofVariables ← r.vars.mapM fun v => Report.variableIssues v.1 v.2
  let ofLayout : List Issue :=
    if r.layout.isEmpty then [⟨"layout", "Layout must contain at least one item"⟩] else []
  let ofItems ← r.layout.zipIdx.mapM fun i => e.itemIssues r i.2 i.1
  return ofVariables.flatten ++ ofLayout ++ Report.orderIssues r.layout ++ ofItems.flatten

def needsOf (e : Enumeration) (layout : List Item) (item : Item) :
    Except Error (List Reference) :=
  match item.content with
  | .calculated expression => (Node.read expression).map e.references
  | _ => Report.needsOf layout item

def graph (e : Enumeration) (r : Report) : Except Error Graph :=
  r.sortedLayout.foldlM (fun g item => do
    let needs ← e.needsOf r.sortedLayout item
    return setPair (.order item.order) needs g) []

def checkCycles (e : Enumeration) (r : Report) : Except Error Unit := do
  let g ← e.graph r
  g.checkCycles

def checkForward (e : Enumeration) (r : Report) : Except Error Unit :=
  r.sortedLayout.forM fun item =>
    match item.content with
    | .calculated expression => do
      let node ← Node.read expression
      (e.references node).forM fun
        | .order n =>
          if item.order < n then .error (.forwardReference item.order n (some expression))
          else .ok ()
        | .name _ => .ok ()
    | _ => .ok ()

def check (e : Enumeration) (r : Report) : Logged Unit := do
  let found ← Logged.ofExcept (e.issues r)
  if !found.isEmpty then
    Logged.warn ["Report '" ++ r.id ++ "' has " ++ toString found.length ++
      " validation issue(s)"]
    Logged.ofExcept (.error (.invalidReport found (.text r.id)))
  else
    Logged.ofExcept do
      e.checkCycles r
      e.checkForward r

end Enumeration
end LedgerReport
