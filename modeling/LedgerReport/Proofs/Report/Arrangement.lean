import LedgerReport.Proofs.Report.Order
/-!
Reports that differ in the order in which their variables and rows are written.

The issues of a report are found row by row, and each of them asks only which orders and which
names there are. So a report without issues has none in any other arrangement. Its rows are then
sorted by distinct orders, which leaves one sorted layout; the further checks see nothing else.
-/

set_option autoImplicit false

namespace LedgerReport.Report
variable {r r' : Report}

/-- Whether a report is another one with its variables and rows written in some order. -/
structure Rearranges (r' r : Report) : Prop where
  vars : r'.vars.Perm r.vars
  layout : r'.layout.Perm r.layout
  rest : r' = { r with vars := r'.vars, layout := r'.layout }

namespace Rearranges

theorem formatting (h : r'.Rearranges r) : r'.formatting = r.formatting := by rw [h.rest]

theorem refers_iff (h : r'.Rearranges r) {ref : Reference} : r'.Refers ref ↔ r.Refers ref := by
  cases ref with
  | name v => simp only [Refers, hasVariable, h.vars.any_eq]
  | order n => simp only [Refers, hasOrder, hasSpacer, h.layout.any_eq]

theorem faultless_iff (h : r'.Rearranges r) {item : Item} :
    r'.Faultless item ↔ r.Faultless item := by
  unfold Faultless
  split
  · simp only [hasVariable, h.vars.any_eq]
  · rfl
  · simp only [h.refers_iff]
  · simp only [hasOrder, h.layout.any_eq]
  · rfl

theorem issues (h : r'.Rearranges r) (hi : r.issues = .ok []) : r'.issues = .ok [] := by
  obtain ⟨hvars, hl, hn, hitems⟩ := issues_eq_nil_iff.1 hi
  refine issues_eq_nil_iff.2 ⟨fun v hm => hvars v (h.vars.mem_iff.1 hm), fun he => hl ?_,
    (h.layout.map Item.order).nodup_iff.2 hn, fun i hm => ?_⟩
  · exact List.nil_perm.1 (he ▸ h.layout)
  · exact h.faultless_iff.2 (hitems i (h.layout.mem_iff.1 hm))

theorem sortedLayout (h : r'.Rearranges r) (hs : r.Sound) (hs' : r'.Sound) :
    r'.sortedLayout = r.sortedLayout := by
  refine List.Perm.eq_of_pairwise ?_ hs'.sorted hs.sorted
    (r'.perm_sortedLayout.trans (h.layout.trans r.perm_sortedLayout.symm))
  intro a b _ _ hab hba
  omega

theorem check (h : r'.Rearranges r) (hi : r.issues = .ok []) : r'.check = r.check := by
  have hi' := h.issues hi
  have hsorted := h.sortedLayout (sound_of_issues hi) (sound_of_issues hi')
  have hgraph : r'.graph = r.graph := by rw [graph, graph, hsorted]
  have hforward : r'.checkForward = r.checkForward := by
    rw [checkForward, checkForward, hsorted]
  unfold Report.check
  rw [hi', hi, hgraph, hforward]
  rfl

end Rearranges
end LedgerReport.Report
