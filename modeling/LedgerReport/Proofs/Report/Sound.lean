import LedgerReport.Report.Validation
import LedgerReport.Proofs.Filter
set_option autoImplicit false

namespace LedgerReport

theorem Reference.mem_sorted {refs : List Reference} {ref : Reference} :
    ref ∈ sorted refs ↔ ref ∈ refs := List.mem_mergeSort

theorem Node.mem_references {node : Node} {ref : Reference} :
    ref ∈ node.references ↔ ref ∈ node.occurrences := by
  rw [references, Reference.mem_sorted, List.mem_eraseDups]

namespace Report
variable {r : Report}

def Known (r : Report) : Reference → Prop
  | .name v => r.hasVariable v
  | .order n => ∃ i ∈ r.layout, i.order = n ∧ i.content ≠ .spacer

def Grounded (r : Report) (i : Item) : Prop :=
  match i.content with
  | .ofVariable name => r.hasVariable name
  | .category filter => ∃ f, Filter.read (.map filter) = .ok f
  | .calculated expression =>
    ∃ node, Node.read expression = .ok node ∧ ∀ ref ∈ node.occurrences, r.Known ref
  | .subtotal first last => first < last ∧ last ≤ i.order
  | .spacer => True

structure Sound (r : Report) : Prop where
  orders : (r.layout.map Item.order).Nodup
  filters : ∀ v ∈ r.vars, ∃ f, Filter.read (.map v.2.filter) = .ok f
  aggregates : ∀ v ∈ r.vars, ∃ a, Aggregate.ofValue? (.text v.2.aggregate) = some a
  grounded : ∀ i ∈ r.layout, r.Grounded i

theorem nodup_of_orderIssues {layout : List Item} (h : orderIssues layout = []) :
    (layout.map Item.order).Nodup := by
  have hall : ∀ i ∈ layout.zipIdx,
      (layout.take i.2).any (fun other => decide (other.order = i.1.order)) = false := by
    intro i hi
    have hn := List.filterMap_eq_nil_iff.1 h i hi
    by_cases hd : (layout.take i.2).any fun other => decide (other.order = i.1.order)
    · simp only [hd, if_true] at hn; cases hn
    · simpa using hd
  rw [List.Nodup, List.pairwise_map, List.pairwise_iff_getElem]
  intro j k hj hk hjk heq
  have hk' := hall (layout[k], k) (List.mk_mem_zipIdx_iff_getElem?.2 (by simp))
  rw [List.any_eq_false] at hk'
  refine hk' layout[j] ?_ (by simpa using heq)
  exact List.mem_take_iff_getElem.2 ⟨j, by omega, rfl⟩

theorem orderIssues_eq_nil_iff {layout : List Item} :
    orderIssues layout = [] ↔ (layout.map Item.order).Nodup := by
  refine ⟨nodup_of_orderIssues, fun hn => List.filterMap_eq_nil_iff.2 fun i hi => if_neg ?_⟩
  rw [Bool.not_eq_true, List.any_eq_false]
  intro other hother
  obtain ⟨j, hj, hji⟩ := List.mem_take_iff_getElem.1 hother
  obtain ⟨hlt, hget⟩ := List.getElem?_eq_some_iff.1 (List.mk_mem_zipIdx_iff_getElem?.1 hi)
  rw [List.Nodup, List.pairwise_map, List.pairwise_iff_getElem] at hn
  have := hn j i.2 (by omega) hlt (by omega)
  simpa [hji, hget] using this

theorem filterIssues_eq_nil_iff {path : String} {filter : Entries} :
    filterIssues path filter = .ok [] ↔ Filter.problems (.map filter) = .ok [] := by
  unfold filterIssues
  rw [bind_eq_ok]
  constructor
  · rintro ⟨problems, hp, hn⟩
    rw [hp, List.map_eq_nil_iff.1 (Except.ok.inj hn)]
  · exact fun hp => ⟨[], hp, rfl⟩

theorem of_variableIssues {name : String} {v : Variable}
    (h : variableIssues name v = .ok []) :
    (∃ f, Filter.read (.map v.filter) = .ok f) ∧
      ∃ a, Aggregate.ofValue? (.text v.aggregate) = some a := by
  obtain ⟨ofFilter, hf, hn⟩ := bind_eq_ok.1 h
  have hnil := Except.ok.inj hn
  simp only [List.append_eq_nil_iff] at hnil
  obtain ⟨⟨-, rfl⟩, ha⟩ := hnil
  refine ⟨Filter.read_ok (filterIssues_eq_nil_iff.1 hf), ?_⟩
  split at ha
  · rename_i hs
    exact Option.isSome_iff_exists.1 hs
  · cases ha

def Refers (r : Report) : Reference → Prop
  | .name v => r.hasVariable v
  | .order n => r.hasOrder n ∧ ¬ r.hasSpacer n

theorem referenceIssues_eq_nil_iff {path : String} {refs : List Reference} :
    r.referenceIssues path refs = [] ↔ ∀ ref ∈ refs, r.Refers ref := by
  rw [referenceIssues, List.filterMap_eq_nil_iff]
  refine forall₂_congr fun ref _ => ?_
  cases ref with
  | name v => simp [Refers]
  | order n => cases ho : r.hasOrder n <;> simp [Refers, ho]

theorem rangeIssues_eq_nil_iff {path : String} {order first last : Int} :
    r.rangeIssues path order first last = [] ↔
      r.hasOrder first ∧ r.hasOrder last ∧ first < last ∧ last ≤ order := by
  have hrange : ∀ a b : Issue,
      (if last ≤ first then [a] else if order < last then [b] else []) = [] ↔
        first < last ∧ last ≤ order := by
    intro a b
    split
    · simp; omega
    · split <;> simp <;> omega
  simp [rangeIssues, hrange]

theorem expressionIssues_eq_ok {path expression : String} {ofNode : Node → List Issue}
    {found : List Issue} (h : expressionIssues path expression ofNode = .ok found) :
    (∃ node, Node.read expression = .ok node ∧ found = ofNode node) ∨
      ∃ e, Node.read expression = .error e ∧ found = [⟨path, e.message⟩] := by
  unfold expressionIssues at h
  split at h
  · rename_i node hn
    cases h
    exact .inl ⟨node, hn, rfl⟩
  · rename_i e hn
    split at h
    · cases h
      exact .inr ⟨_, hn, rfl⟩
    · cases h

theorem expressionIssues_eq_nil_iff {path expression : String} {ofNode : Node → List Issue} :
    expressionIssues path expression ofNode = .ok [] ↔
      ∃ node, Node.read expression = .ok node ∧ ofNode node = [] := by
  constructor
  · intro h
    obtain ⟨node, hn, hf⟩ | ⟨e, -, hf⟩ := expressionIssues_eq_ok h
    · exact ⟨node, hn, hf.symm⟩
    · cases hf
  · rintro ⟨node, hn, hf⟩
    simp only [expressionIssues, hn, hf]

def Faultless (r : Report) (item : Item) : Prop :=
  match item.content with
  | .ofVariable name => r.hasVariable name
  | .category filter => Filter.problems (.map filter) = .ok []
  | .calculated expression =>
    ∃ node, Node.read expression = .ok node ∧ ∀ ref ∈ node.references, r.Refers ref
  | .subtotal first last =>
    r.hasOrder first ∧ r.hasOrder last ∧ first < last ∧ last ≤ item.order
  | .spacer => True

theorem itemIssues_eq_nil_iff {index : Nat} {item : Item} :
    r.itemIssues index item = .ok [] ↔ r.Faultless item := by
  unfold itemIssues Faultless
  cases hc : item.content with
  | ofVariable name => simp
  | category filter => exact filterIssues_eq_nil_iff
  | calculated expression => simp only [expressionIssues_eq_nil_iff, referenceIssues_eq_nil_iff]
  | subtotal first last => simp [rangeIssues_eq_nil_iff]
  | spacer => simp

/-- A report has no issues exactly if its orders are distinct and all its parts are faultless,
wherever they stand. -/
theorem issues_eq_nil_iff : r.issues = .ok [] ↔
    (∀ v ∈ r.vars, variableIssues v.1 v.2 = .ok []) ∧ r.layout ≠ [] ∧
    (r.layout.map Item.order).Nodup ∧ ∀ i ∈ r.layout, r.Faultless i := by
  constructor
  · intro h
    obtain ⟨ofVariables, hv, h⟩ := bind_eq_ok.1 h
    obtain ⟨ofItems, hi, h⟩ := bind_eq_ok.1 h
    have hnil := Except.ok.inj h
    simp only [List.append_eq_nil_iff] at hnil
    obtain ⟨⟨⟨hvn, hl⟩, ho⟩, hin⟩ := hnil
    refine ⟨eq_nil_of_mapM_flatten hv hvn, fun hempty => ?_, orderIssues_eq_nil_iff.1 ho,
      fun i hm => ?_⟩
    · simp [hempty] at hl
    · obtain ⟨index, hmem⟩ := List.mem_iff_getElem?.1 hm
      exact itemIssues_eq_nil_iff.1 (eq_nil_of_mapM_flatten hi hin (i, index)
        (List.mk_mem_zipIdx_iff_getElem?.2 hmem))
  · rintro ⟨hv, hl, ho, hi⟩
    have hvariables : r.vars.mapM (fun v => variableIssues v.1 v.2) =
        .ok (r.vars.map fun _ => []) := mapM_eq_map hv
    have hitems : r.layout.zipIdx.mapM (fun i => r.itemIssues i.2 i.1) =
        .ok (r.layout.zipIdx.map fun _ => []) := mapM_eq_map fun i hm =>
      itemIssues_eq_nil_iff.2 (hi i.1 (List.fst_mem_of_mem_zipIdx hm))
    simp [issues, hvariables, hitems, orderIssues_eq_nil_iff.2 ho, hl, bind, Except.bind, pure,
      Except.pure]

theorem Refers.known {ref : Reference} (h : r.Refers ref) : r.Known ref := by
  cases ref with
  | name v => exact h
  | order n =>
    obtain ⟨ho, hs⟩ := h
    obtain ⟨i, hi, hio⟩ := List.any_eq_true.1 ho
    simp only [decide_eq_true_eq] at hio
    refine ⟨i, hi, hio, fun hc => hs (List.any_eq_true.2 ⟨i, hi, ?_⟩)⟩
    simp only [hio, hc, decide_true, Bool.and_self]

theorem Faultless.grounded {i : Item} (h : r.Faultless i) : r.Grounded i := by
  unfold Grounded
  unfold Faultless at h
  cases hc : i.content with
  | ofVariable name =>
    simp only [hc] at h
    exact h
  | category filter =>
    simp only [hc] at h
    exact Filter.read_ok h
  | calculated expression =>
    simp only [hc] at h
    obtain ⟨node, hn, hrefs⟩ := h
    exact ⟨node, hn, fun ref hm => (hrefs ref (Node.mem_references.2 hm)).known⟩
  | subtotal first last =>
    simp only [hc] at h
    exact h.2.2
  | spacer => trivial

theorem sound_of_issues (h : r.issues = .ok []) : r.Sound := by
  obtain ⟨hvars, -, horders, hitems⟩ := issues_eq_nil_iff.1 h
  exact ⟨horders, fun v hm => (of_variableIssues (hvars v hm)).1,
    fun v hm => (of_variableIssues (hvars v hm)).2, fun i hm => (hitems i hm).grounded⟩

end Report
end LedgerReport
