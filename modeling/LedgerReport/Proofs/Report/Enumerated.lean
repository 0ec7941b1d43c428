import Mathlib
import LedgerReport.Report.Enumerated
import LedgerReport.Proofs.Expression.Strict
import LedgerReport.Proofs.Period.Key
import LedgerReport.Proofs.Report.Sound
/-!
Validation does not depend on the order in which sets are gone through.

Different references have different texts (`Reference.text_injective`), so there is one order of
their texts, whatever the order in which they are given (`Enumerates.sorted_eq`). Therefore every
run takes the references of an expression in the same order, and finds the same issues and errors.
-/

set_option autoImplicit false

namespace LedgerReport

namespace Reference

theorem text_injective {a b : Reference} (h : a.text = b.text) : a = b := by
  have hchars := congrArg String.toList h
  cases a with
  | name v =>
    cases b with
    | name w =>
      rw [text, text, String.toList_append, String.toList_append, List.append_cancel_left_eq,
        String.toList_inj] at hchars
      rw [hchars]
    | order n =>
      rw [text, text, String.toList_append, String.toList_append] at hchars
      cases hchars
  | order m =>
    cases b with
    | name w =>
      rw [text, text, String.toList_append, String.toList_append] at hchars
      cases hchars
    | order n =>
      rw [text, text, String.toList_append, String.toList_append,
        List.append_cancel_left_eq] at hchars
      rw [Text.ofWhole_injective hchars]

theorem sorted_perm (refs : List Reference) : (sorted refs).Perm refs :=
  List.mergeSort_perm refs _

theorem pairwise_sorted (refs : List Reference) :
    (sorted refs).Pairwise fun a b => a.text ≤ b.text := by
  have h : (sorted refs).Pairwise fun a b => decide (a.text ≤ b.text) = true :=
    List.pairwise_mergeSort
      (fun a b c hab hbc => by
        simpa using String.le_trans (of_decide_eq_true hab) (of_decide_eq_true hbc))
      (fun a b => by simpa using String.le_total a.text b.text) refs
  exact h.imp of_decide_eq_true

theorem pairwise_lt_sorted {refs : List Reference} (h : refs.Nodup) :
    (sorted refs).Pairwise fun a b => a.text < b.text := by
  have hnodup : (sorted refs).Nodup := (sorted_perm refs).nodup_iff.2 h
  refine ((pairwise_sorted refs).and hnodup).imp fun ⟨hle, hne⟩ => ?_
  exact String.not_le.1 fun hge => hne (text_injective (String.le_antisymm hle hge))

theorem sorted_eq_of_perm {refs others : List Reference} (h : refs.Perm others) :
    sorted refs = sorted others :=
  List.Perm.eq_of_pairwise
    (fun _ _ _ _ hab hba => text_injective (String.le_antisymm hab hba))
    (pairwise_sorted refs) (pairwise_sorted others)
    ((sorted_perm refs).trans (h.trans (sorted_perm others).symm))

/-- Rows are in the order of the texts of their numbers. -/
example : sorted [.order 9, .order 10] = [.order 10, .order 9] := by cbv

end Reference

namespace Node

/-- The references that are collected are those that were found and those that occur. -/
theorem mem_collect {node : Node} {found : Std.HashSet Reference} {ref : Reference} :
    ref ∈ node.collect found ↔ ref ∈ found ∨ ref ∈ node.occurrences := by
  induction node generalizing found with
  | literal x => simp [collect, occurrences]
  | variableAt name position =>
    rw [collect, occurrences, Std.HashSet.mem_insert, beq_iff_eq, List.mem_singleton, or_comm,
      eq_comm]
  | orderAt n position =>
    rw [collect, occurrences, Std.HashSet.mem_insert, beq_iff_eq, List.mem_singleton, or_comm,
      eq_comm]
  | signed sign operand ih => exact ih
  | binary operator left right hl hr =>
    rw [collect, occurrences, hr, hl, List.mem_append, or_assoc]

theorem mem_referenceSet {node : Node} {ref : Reference} :
    ref ∈ node.referenceSet ↔ ref ∈ node.occurrences := by
  rw [referenceSet, mem_collect]
  simp

theorem enumerates_eraseDups (node : Node) :
    Enumerates node.occurrences.eraseDups node.referenceSet where
  nodup := nodup_eraseDups node.occurrences
  mem_iff ref := by rw [List.mem_eraseDups, mem_referenceSet]

theorem Names.unique {t : Token} {s other : Reference × Nat} (h : Names t s)
    (h' : Names t other) : s.1 = other.1 := by
  obtain ⟨-, ⟨hk, hs⟩ | ⟨hk, n, hn, hs⟩⟩ := h
  · obtain ⟨-, ⟨-, ho⟩ | ⟨hk', -⟩⟩ := h'
    · rw [hs, ho]
    · rw [hk] at hk'
      cases hk'
  · obtain ⟨-, ⟨hk', -⟩ | ⟨-, n', hn', ho⟩⟩ := h'
    · rw [hk] at hk'
      cases hk'
    · rw [hs, ho, Option.some.inj (hn.symm.trans hn')]

theorem mem_references_iff_names {text : String} {node : Node} (h : read text = .ok node)
    {ref : Reference} : ref ∈ node.references ↔
      ∃ tokens, Token.read text = .ok tokens ∧ ∃ t ∈ tokens, Names t (ref, t.position) := by
  obtain ⟨tokens, ht, hsites⟩ := names_sites_of_read h
  rw [mem_references, mem_occurrences_iff]
  constructor
  · rintro ⟨s, hs, rfl⟩
    obtain ⟨t, hm, hnames⟩ := exists_of_forall₂ hsites.flip s hs
    exact ⟨tokens, ht, t, (List.mem_filter.1 hm).1, rfl, hnames.2⟩
  · rintro ⟨tokens', ht', t, hm, hnames⟩
    obtain rfl : tokens = tokens' := Except.ok.inj (ht.symm.trans ht')
    have hrefers : Refers t = true := by
      rcases hnames.2 with ⟨hk, -⟩ | ⟨hk, -⟩ <;> simp [Refers, hk]
    obtain ⟨s, hs, hs'⟩ := exists_of_forall₂ hsites t
      (List.mem_filter.2 ⟨hm, hrefers⟩)
    exact ⟨s, hs, hs'.unique hnames⟩

end Node

/-- In whatever order a set of references is gone through, they are sorted in the same order. -/
theorem Enumerates.sorted_eq {refs others : List Reference} {set : Std.HashSet Reference}
    (h : Enumerates refs set) (h' : Enumerates others set) :
    Reference.sorted refs = Reference.sorted others :=
  Reference.sorted_eq_of_perm ((List.perm_ext_iff_of_nodup h.nodup h'.nodup).2 fun ref => by
    rw [h.mem_iff, h'.mem_iff])

namespace Enumeration
variable (e : Enumeration)

theorem references_eq (node : Node) : e.references node = node.references :=
  (e.enumerates node).sorted_eq node.enumerates_eraseDups

theorem references_eq_fun : e.references = Node.references := funext e.references_eq

variable (r : Report)

theorem itemIssues_eq (index : Nat) (item : Item) :
    e.itemIssues r index item = r.itemIssues index item := by
  unfold itemIssues Report.itemIssues
  split
  · rename_i expression hc
    rw [hc]
    simp only [expressionIssues, references_eq]
  · rfl

theorem issues_eq : e.issues r = r.issues := by
  simp only [issues, Report.issues, itemIssues_eq]

theorem needsOf_eq (layout : List Item) (item : Item) :
    e.needsOf layout item = Report.needsOf layout item := by
  unfold needsOf
  split
  · rename_i expression hc
    rw [Report.needsOf, hc, references_eq_fun]
  · rfl

theorem graph_eq : e.graph r = r.graph := by
  simp only [graph, Report.graph, needsOf_eq]

theorem checkForward_eq : e.checkForward r = r.checkForward := by
  simp only [checkForward, references_eq]
  rfl

theorem check_eq : e.check r = r.check := by
  simp only [check, Report.check, issues_eq, checkCycles, graph_eq, checkForward_eq, bind_assoc]

/-- In every run the references of an expression are those that its tokens name, each once, and in
the one order of their texts in which no two are alike, in whatever order the set of them is gone
through. So every run finds the same issues of an expression and of a report, the same needs of its
rows, the same circular chain and the same reference to a later row. -/
theorem validates_alike :
    (∀ text node, Node.read text = .ok node →
      (∀ a ∈ node.referenceSet, ∀ b ∈ node.referenceSet, a.text = b.text → a = b) ∧
      (∀ refs, Enumerates refs node.referenceSet → Reference.sorted refs = e.references node) ∧
      (e.references node).Pairwise (fun a b => a.text < b.text) ∧ (e.references node).Nodup ∧
      ∀ ref, ref ∈ e.references node ↔
        ∃ tokens, Token.read text = .ok tokens ∧ ∃ t ∈ tokens, Node.Names t (ref, t.position)) ∧
    ∀ r : Report,
      (∀ path expression,
        e.expressionIssues r path expression = hashed.expressionIssues r path expression) ∧
      e.issues r = r.issues ∧ e.graph r = r.graph ∧
      e.checkCycles r = (r.graph >>= Graph.checkCycles) ∧
      e.checkForward r = r.checkForward ∧ e.check r = r.check := by
  refine ⟨fun text node h => ⟨fun a _ b _ => Reference.text_injective,
    fun refs hrefs => hrefs.sorted_eq (e.enumerates node),
    Reference.pairwise_lt_sorted (e.enumerates node).nodup,
    (Reference.sorted_perm _).nodup_iff.2 (e.enumerates node).nodup, fun ref => ?_⟩,
    fun r => ⟨fun path expression => ?_, e.issues_eq r, e.graph_eq r, ?_, e.checkForward_eq r,
      e.check_eq r⟩⟩
  · rw [references_eq]
    exact Node.mem_references_iff_names h
  · simp only [expressionIssues, references_eq]
  · rw [checkCycles, graph_eq]

end Enumeration
end LedgerReport
