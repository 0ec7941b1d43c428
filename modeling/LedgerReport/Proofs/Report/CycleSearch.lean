import Mathlib
import LedgerReport.Proofs.Report.Order
set_option autoImplicit false

namespace LedgerReport.Report

/-- The search of a report whose expressions can be read fails exactly if the graph of the report
has a cycle, and what it fails with is one. -/
theorem checkCycles_circular_iff (r : Report) (h : r.Readable) : ∃ g, r.graph = .ok g ∧
    ((∃ chain, g.checkCycles = .error (.circularDependency chain)) ↔
      ∃ ref, Relation.TransGen g.Needs ref ref) ∧
    ∀ e, g.checkCycles = .error e →
      ∃ cycle, e = .circularDependency (cycle.map Reference.text) ∧ g.IsCycle cycle := by
  obtain ⟨g, hg⟩ := h.graph_ok
  refine ⟨g, hg, ⟨?_, ?_⟩, fun e he => Graph.checkCycles_error he⟩
  · rintro ⟨chain, hc⟩
    obtain ⟨cycle, -, hcycle⟩ := Graph.checkCycles_error hc
    exact Classical.not_forall_not.1 hcycle.not_acyclic
  · rintro ⟨ref, hr⟩
    cases hc : g.checkCycles with
    | ok _ => exact absurd hr (Graph.acyclic_of_checkCycles hc ref)
    | error e =>
      obtain ⟨chain, rfl⟩ := (Graph.checkCycles_error hc).isCircular
      exact ⟨chain, rfl⟩

/-- A row that is calculated from a subtotal that adds it up, next to rows that are needed from
two sides and are on no cycle. -/
def spiral : Report where
  id := "spiral"
  name := "Spiral"
  version := "1.0.0"
  statement := .income
  description := none
  vars := [("revenue", ⟨[], "sum", none⟩)]
  layout := [⟨10, none, none, none, 0, .ofVariable "revenue"⟩,
    ⟨20, none, none, none, 0, .calculated "@10 / revenue"⟩,
    ⟨30, none, none, none, 0, .calculated "@20 - @40"⟩,
    ⟨40, none, none, none, 0, .subtotal 10 30⟩]
  formatting := none

def spiralGraph : Graph := [
  (.order 10, [.name "revenue"]),
  (.order 20, [.order 10, .name "revenue"]),
  (.order 30, [.order 20, .order 40]),
  (.order 40, [.order 10, .order 20, .order 30])]

theorem checkCycles_circular_iff_spiral :
    spiral.Readable ∧ spiral.graph = .ok spiralGraph ∧
    spiralGraph.checkCycles = .error (.circularDependency ["@30", "@40", "@30"]) ∧
    ∃ ref, Relation.TransGen spiralGraph.Needs ref ref := by
  have hread : spiral.Readable := by
    intro i hi expression hc
    simp only [spiral, List.mem_cons, List.not_mem_nil, or_false] at hi
    rcases hi with rfl | rfl | rfl | rfl <;> cases hc
    · exact ⟨.binary .divide (.orderAt 10 0) (.variableAt "revenue" 6), by cbv⟩
    · exact ⟨.binary .subtract (.orderAt 20 0) (.orderAt 40 6), by cbv⟩
  have hgraph : spiral.graph = .ok spiralGraph := by cbv
  have hcheck : spiralGraph.checkCycles = .error (.circularDependency ["@30", "@40", "@30"]) := by
    cbv
  obtain ⟨g, hg, hiff, -⟩ := checkCycles_circular_iff spiral hread
  obtain rfl : spiralGraph = g := Except.ok.inj (hgraph.symm.trans hg)
  exact ⟨hread, hgraph, hcheck, hiff.1 ⟨_, hcheck⟩⟩

end LedgerReport.Report
