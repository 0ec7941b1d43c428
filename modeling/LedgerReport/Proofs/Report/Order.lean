import Mathlib.Data.List.Nodup
import LedgerReport.Proofs.Report.Sound
import LedgerReport.Proofs.Report.Cycles
/-!
The order of the rows of a sound report, and what the checks say about it.

A row is ascending if it is calculated from rows before it only. Then no row needs a row that is
not before it, since a subtotal ends before its own row; so the graph has no cycle. Without a cycle
no row needs itself, so a report that refers to no later rows is ascending.
-/

set_option autoImplicit false

namespace LedgerReport

def Error.IsOutOfOrder (e : Error) : Prop :=
  e.IsCircular ∨ ∃ order referenced source, e = .forwardReference order referenced source

def Item.RefersBack (i : Item) : Prop :=
  ∀ expression node, i.content = .calculated expression → Node.read expression = .ok node →
    ∀ n, .order n ∈ node.occurrences → n < i.order

namespace Report
variable {r : Report}

/-- Whether every calculated row refers to rows before it only. -/
def Ascending (r : Report) : Prop := ∀ i ∈ r.layout, i.RefersBack

theorem perm_sortedLayout (r : Report) : r.sortedLayout.Perm r.layout :=
  List.mergeSort_perm r.layout _

theorem mem_sortedLayout {i : Item} : i ∈ r.sortedLayout ↔ i ∈ r.layout :=
  r.perm_sortedLayout.mem_iff

theorem Sound.nodup_sortedLayout (h : r.Sound) : (r.sortedLayout.map Item.order).Nodup :=
  (r.perm_sortedLayout.map Item.order).nodup_iff.2 h.orders

theorem Sound.sorted (h : r.Sound) :
    r.sortedLayout.Pairwise fun a b => a.order < b.order := by
  have hle : r.sortedLayout.Pairwise fun a b => a.order ≤ b.order := by
    have hs : r.sortedLayout.Pairwise fun a b => decide (a.order ≤ b.order) = true :=
      List.pairwise_mergeSort (fun a b c hab hbc => by simp at *; omega)
        (fun a b => by simp; omega) r.layout
    exact hs.imp fun hab => by simpa using hab
  have hne := List.pairwise_map.1 h.nodup_sortedLayout
  exact (hle.and hne).imp fun hab => by omega

theorem Sound.eq_of_order (h : r.Sound) {i j : Item} (hi : i ∈ r.layout) (hj : j ∈ r.layout)
    (ho : i.order = j.order) : i = j :=
  List.inj_on_of_nodup_map h.orders hi hj ho

/-- Whether the expressions of all calculated rows can be read. -/
def Readable (r : Report) : Prop :=
  ∀ i ∈ r.layout, ∀ expression, i.content = .calculated expression →
    ∃ node, Node.read expression = .ok node

theorem Sound.readable (h : r.Sound) : r.Readable := by
  intro i hi expression hc
  have hg := h.grounded i hi
  simp only [Grounded, hc] at hg
  obtain ⟨node, hn, -⟩ := hg
  exact ⟨node, hn⟩

theorem needsOf_calculated {i : Item} {expression : String} {node : Node} {layout : List Item}
    (hc : i.content = .calculated expression) (hn : Node.read expression = .ok node) :
    needsOf layout i = .ok node.references := by
  simp only [needsOf, hc, hn]
  rfl

theorem Readable.needsOf_ok (h : r.Readable) {i : Item} (hi : i ∈ r.layout)
    (layout : List Item) : ∃ needs, needsOf layout i = .ok needs := by
  cases hc : i.content with
  | calculated expression =>
    obtain ⟨node, hn⟩ := h i hi expression hc
    exact ⟨node.references, needsOf_calculated hc hn⟩
  | _ =>
    simp only [needsOf, hc]
    exact ⟨_, rfl⟩

theorem Readable.graph_ok (h : r.Readable) : ∃ g, r.graph = .ok g := by
  refine foldlM_ok (fun g i hi => ?_) []
  obtain ⟨needs, hn⟩ := h.needsOf_ok (mem_sortedLayout.1 hi) r.sortedLayout
  exact ⟨setPair (.order i.order) needs g, by simp only [hn]; rfl⟩

/-- Each row is given what it needs; what stands under other references stays. -/
theorem getPair?_foldlM {needsOf : Item → Except Error (List Reference)} {items : List Item}
    {g g' : Graph} (hd : (items.map Item.order).Nodup)
    (h : items.foldlM (fun g i => do
      let needs ← needsOf i
      return setPair (.order i.order) needs g) g = .ok g') :
    (∀ i ∈ items, ∃ needs, needsOf i = .ok needs ∧ getPair? (.order i.order) g' = some needs) ∧
      ∀ ref, (∀ i ∈ items, ref ≠ .order i.order) → getPair? ref g' = getPair? ref g := by
  induction items generalizing g with
  | nil =>
    cases h
    exact ⟨by simp, fun ref _ => rfl⟩
  | cons x xs ih =>
    obtain ⟨hx, hd⟩ := List.nodup_cons.1 hd
    rw [List.foldlM_cons] at h
    obtain ⟨g₁, h₁, h⟩ := bind_eq_ok.1 h
    obtain ⟨needs, hn, h₁⟩ := bind_eq_ok.1 h₁
    cases h₁
    obtain ⟨hin, hout⟩ := ih hd h
    have hself := hout (.order x.order) fun i hi ho => by
      simp only [Reference.order.injEq] at ho
      exact hx (List.mem_map.2 ⟨i, hi, ho.symm⟩)
    rw [getPair?_setPair_self] at hself
    refine ⟨fun i hi => ?_, fun ref hr => ?_⟩
    · rcases List.mem_cons.1 hi with rfl | hi
      · exact ⟨needs, hn, hself⟩
      · exact hin i hi
    · rw [hout ref fun i hi => hr i (by simp [hi]),
        getPair?_setPair_of_ne _ _ (hr x (by simp))]

theorem Sound.needs_iff (h : r.Sound) {g : Graph} (hg : r.graph = .ok g) {ref need : Reference} :
    g.Needs ref need ↔ ∃ i ∈ r.layout, ref = .order i.order ∧
      ∃ needs, needsOf r.sortedLayout i = .ok needs ∧ need ∈ needs := by
  obtain ⟨hin, hout⟩ := getPair?_foldlM h.nodup_sortedLayout hg
  constructor
  · rintro ⟨needs, hn, hm⟩
    by_cases hr : ∃ i ∈ r.sortedLayout, ref = .order i.order
    · obtain ⟨i, hi, rfl⟩ := hr
      obtain ⟨needs', hn', hg'⟩ := hin i hi
      rw [hn] at hg'
      cases hg'
      exact ⟨i, mem_sortedLayout.1 hi, rfl, needs, hn', hm⟩
    · rw [hout ref fun i hi he => hr ⟨i, hi, he⟩] at hn
      cases hn
  · rintro ⟨i, hi, rfl, needs, hn, hm⟩
    obtain ⟨needs', hn', hg'⟩ := hin i (mem_sortedLayout.2 hi)
    rw [hn] at hn'
    cases hn'
    exact ⟨needs, hg', hm⟩

/-- The rows that a subtotal adds up end before it, since it does not add up itself. -/
theorem Sound.lt_of_summed (h : r.Sound) {i member : Item} {first last : Int} (hi : i ∈ r.layout)
    (hc : i.content = .subtotal first last) (hm : member ∈ r.layout) (hl : member.order ≤ last)
    (hs : member.isSummed = true) : member.order < i.order := by
  have hg := h.grounded i hi
  simp only [Grounded, hc] at hg
  have hne : member.order ≠ i.order := by
    intro he
    have := h.eq_of_order hm hi he
    subst this
    simp [Item.isSummed, hc] at hs
  omega

theorem Sound.lt_of_need (h : r.Sound) {i : Item} (hi : i ∈ r.layout) (hb : i.RefersBack)
    {needs : List Reference} {n : Int} (hn : needsOf r.sortedLayout i = .ok needs)
    (hm : .order n ∈ needs) : n < i.order := by
  have hg := h.grounded i hi
  unfold Grounded at hg
  unfold needsOf at hn
  cases hc : i.content with
  | calculated expression =>
    simp only [hc] at hn hg
    obtain ⟨node, hr, -⟩ := hg
    rw [hr] at hn
    cases hn
    exact hb expression node hc hr n (Node.mem_references.1 hm)
  | ofVariable name =>
    simp only [hc] at hn
    cases hn
    simp at hm
  | subtotal first last =>
    simp only [hc] at hn
    cases hn
    obtain ⟨member, hmem, ho⟩ := List.mem_map.1 hm
    simp only [Reference.order.injEq] at ho
    obtain ⟨hmem, hp⟩ := List.mem_filter.1 hmem
    simp only [Bool.and_eq_true, decide_eq_true_eq] at hp
    obtain ⟨⟨-, hl⟩, hs⟩ := hp
    exact ho ▸ h.lt_of_summed hi hc (mem_sortedLayout.1 hmem) hl hs
  | category filter =>
    simp only [hc] at hn
    cases hn
    simp at hm
  | spacer =>
    simp only [hc] at hn
    cases hn
    simp at hm

theorem Sound.acyclic (h : r.Sound) (ha : r.Ascending) {g : Graph} (hg : r.graph = .ok g) :
    g.Acyclic := by
  -- a chain of needs from a row leads to variables and to rows before it
  have hchain : ∀ {m ref}, Relation.TransGen g.Needs (.order m) ref →
      ∀ n, ref = .order n → n < m := by
    intro m ref hc
    induction hc with
    | single hs =>
      rintro n rfl
      obtain ⟨i, hi, ho, needs, hn, hm⟩ := (h.needs_iff hg).1 hs
      cases ho
      exact h.lt_of_need hi (ha i hi) hn hm
    | tail _ hs ih =>
      rintro n rfl
      obtain ⟨i, hi, rfl, needs, hn, hm⟩ := (h.needs_iff hg).1 hs
      have hlt := ih i.order rfl
      have := h.lt_of_need hi (ha i hi) hn hm
      omega
  intro ref hc
  cases ref with
  | order n => exact absurd (hchain hc n rfl) (Int.lt_irrefl n)
  | name v =>
    have hnone : ∀ {x y}, Relation.TransGen g.Needs x y → x ≠ .name v := by
      intro x y hxy
      induction hxy with
      | single hs =>
        obtain ⟨i, -, rfl, -⟩ := (h.needs_iff hg).1 hs
        simp
      | tail _ _ ih => exact ih
    exact hnone hc rfl

def NoneForward (r : Report) : Prop :=
  ∀ i ∈ r.layout, ∀ expression node, i.content = .calculated expression →
    Node.read expression = .ok node → ∀ n, .order n ∈ node.occurrences → n ≤ i.order

theorem noneForward_of_checkForward (h : r.checkForward = .ok ()) : r.NoneForward := by
  intro i hi expression node hc hn n hm
  have hstep := forM_eq_ok.1 h i (mem_sortedLayout.2 hi)
  simp only [hc, hn] at hstep
  have hn := forM_eq_ok.1 hstep (.order n) (Node.mem_references.2 hm)
  simp only at hn
  split at hn
  · cases hn
  · omega

theorem Sound.checkForward_ok (h : r.Sound) (hf : r.NoneForward) : r.checkForward = .ok () := by
  refine forM_eq_ok.2 fun i hi => ?_
  have hi := mem_sortedLayout.1 hi
  have hg := h.grounded i hi
  unfold Grounded at hg
  cases hc : i.content with
  | calculated expression =>
    simp only [hc] at hg
    obtain ⟨node, hn, -⟩ := hg
    simp only [hn]
    refine forM_eq_ok.2 fun ref hm => ?_
    cases ref with
    | name v => rfl
    | order n =>
      have := hf i hi expression node hc hn n (Node.mem_references.1 hm)
      simp only [if_neg (show ¬ i.order < n by omega)]
  | _ => rfl

theorem Sound.checkForward_error (h : r.Sound) {e : Error} (he : r.checkForward = .error e) :
    e.IsOutOfOrder := by
  refine forM_error Error.IsOutOfOrder (fun i hi e he => ?_) he
  have hg := h.grounded i (mem_sortedLayout.1 hi)
  unfold Grounded at hg
  cases hc : i.content with
  | calculated expression =>
    simp only [hc] at hg he
    obtain ⟨node, hn, -⟩ := hg
    simp only [hn] at he
    refine forM_error Error.IsOutOfOrder (fun ref _ e he => ?_) he
    cases ref with
    | name v => cases he
    | order n =>
      simp only at he
      split at he
      · cases he
        exact Or.inr ⟨_, _, _, rfl⟩
      · cases he
  | _ => simp [hc] at he

theorem Sound.ascending_of_acyclic (h : r.Sound) {g : Graph} (hg : r.graph = .ok g)
    (ha : g.Acyclic) (hf : r.NoneForward) : r.Ascending := by
  intro i hi expression node hc hn n hm
  have hle := hf i hi expression node hc hn n hm
  have hne : n ≠ i.order := by
    rintro rfl
    have hself : g.Needs (.order i.order) (.order i.order) := (h.needs_iff hg).2
      ⟨i, hi, rfl, node.references, needsOf_calculated hc hn, Node.mem_references.2 hm⟩
    exact ha _ (.single hself)
  omega

theorem check_outcome (hi : r.issues = .ok []) {g : Graph} (hg : r.graph = .ok g) :
    r.check.outcome = g.checkCycles >>= fun _ => r.checkForward := by
  unfold check
  rw [Logged.outcome_bind, Logged.outcome_ofExcept, hi]
  simp only [bind, Except.bind, hg]
  rfl

theorem issues_of_check (h : r.check.outcome = .ok ()) : r.issues = .ok [] := by
  unfold check at h
  rw [Logged.outcome_bind, Logged.outcome_ofExcept] at h
  obtain ⟨found, hf, h⟩ := bind_eq_ok.1 h
  cases found with
  | nil => exact hf
  | cons issue issues =>
    simp only [List.isEmpty_cons] at h
    cases h

/-- The checks accept a report without issues exactly if its calculated rows refer back. -/
theorem check_ok_iff (hi : r.issues = .ok []) : r.check.outcome = .ok () ↔ r.Ascending := by
  have h := sound_of_issues hi
  obtain ⟨g, hg⟩ := h.readable.graph_ok
  rw [check_outcome hi hg, bind_eq_ok]
  constructor
  · rintro ⟨⟨⟩, hc, hf⟩
    exact h.ascending_of_acyclic hg (Graph.acyclic_of_checkCycles hc)
      (noneForward_of_checkForward hf)
  · intro ha
    refine ⟨(), Graph.checkCycles_ok (h.acyclic ha hg), h.checkForward_ok ?_⟩
    intro i hi expression node hc hn n hm
    have := ha i hi expression node hc hn n hm
    omega

theorem check_error (hi : r.issues = .ok []) {e : Error} (he : r.check.outcome = .error e) :
    e.IsOutOfOrder := by
  have h := sound_of_issues hi
  obtain ⟨g, hg⟩ := h.readable.graph_ok
  rw [check_outcome hi hg] at he
  cases hc : g.checkCycles with
  | error e' =>
    simp only [hc, bind, Except.bind, Except.error.injEq] at he
    exact he ▸ Or.inl (Graph.checkCycles_error hc).isCircular
  | ok _ =>
    simp only [hc, bind, Except.bind] at he
    exact h.checkForward_error he

end Report
end LedgerReport
