import Mathlib
import LedgerReport.Proofs.Statement.Equations
/-!
The pass over a layout computes the solution of its equations.

After some rows, the values that are set are those of the rows that are no spacers, in their order
(`bound`). A row that refers back finds all that it needs there and gets the value that solves its
equation (`row_run`); at a row that does not, the pass stops (`row_run_error`).
-/

set_option autoImplicit false

namespace LedgerReport
open Amount

theorem Aggregate.read_sum : Aggregate.read (.text Aggregate.sum.name) = .ok .sum := by cbv

namespace Layout
variable {layout : List Item} {values : List (String × Amount)} {movements : List Movement}
  {v : Int → Option Float} {item : Item} {pre : List Item}

def bound (v : Int → Option Float) (items : List Item) : List (Int × Amount) :=
  (items.filter fun i => !(i.content matches .spacer)).map fun i => (i.order, ofReal (v i.order))

theorem getPair?_bound {i : Item} (hi : i ∈ pre) (hc : i.content ≠ .spacer) :
    getPair? i.order (bound v pre) = some (ofReal (v i.order)) :=
  getPair?_map Item.order (fun j => ofReal (v j.order)) (List.mem_filter.2 ⟨hi, by simp⟩)
    fun j _ ho => by rw [ho]

theorem getPair?_bound_eq_none {n : Int} (h : ∀ i ∈ pre, i.order ≠ n) :
    getPair? n (bound v pre) = none := by
  unfold getPair? bound
  rw [Option.map_eq_none_iff, List.find?_eq_none]
  intro p hp
  obtain ⟨i, hi, rfl⟩ := List.mem_map.1 hp
  simpa using h i (List.mem_filter.1 hi).1

theorem bound_nil : bound v [] = [] := rfl

theorem bound_append (pre post : List Item) :
    bound v (pre ++ post) = bound v pre ++ bound v post := by
  simp [bound]

theorem bound_spacer (hc : item.content = .spacer) : bound v [item] = [] := by
  simp [bound, hc]

theorem bound_row (hc : item.content ≠ .spacer) :
    bound v [item] = [(item.order, ofReal (v item.order))] := by
  simp [bound]

theorem setPair_bound (h : ∀ i ∈ pre, i.order ≠ item.order) (hc : item.content ≠ .spacer) :
    setPair item.order (ofReal (v item.order)) (bound v pre) = bound v (pre ++ [item]) := by
  rw [bound_append, bound_row hc]
  refine setPair_eq_append _ fun p hp => ?_
  obtain ⟨i, hi, rfl⟩ := List.mem_map.1 hp
  exact h i (List.mem_filter.1 hi).1

theorem row_run (h : ∀ i ∈ pre, i.order ≠ item.order)
    (hr : (value layout movements item).run ⟨values, bound v pre⟩ =
      (.ok (ofReal (v item.order)), ⟨values, bound v pre⟩)) :
    (row layout movements item).run ⟨values, bound v pre⟩ =
      (.ok (Row.ofItem item (ofReal (v item.order))), ⟨values, bound v (pre ++ [item])⟩) := by
  unfold row
  rw [Attempt.run_bind_ok _ hr]
  by_cases hc : item.content = .spacer
  · rw [bound_append, bound_spacer hc, List.append_nil]
    simp only [hc]
    rfl
  · rw [← setPair_bound h hc]
    simp only
    rfl

theorem row_run_error {b b' : Bindings} {e : Error}
    (hr : (value layout movements item).run b = (.error e, b')) :
    (row layout movements item).run b = (.error e, b') :=
  Attempt.run_bind_error _ hr

theorem subtotal_bound {first last : Int} (hs : ∀ i ∈ pre, isSummed layout first last i.order =
      (first ≤ i.order && i.order ≤ last && i.isSummed)) :
    subtotal layout first last (bound v pre) = .ok (.real (Aggregate.realSum
      ((pre.filter fun i => first ≤ i.order && i.order ≤ last && i.isSummed).filterMap fun i =>
        v i.order))) := by
  unfold subtotal Aggregate.realSum
  generalize (0.0 : Float) = x
  induction pre generalizing x with
  | nil => rfl
  | cons i pre ih =>
    have hi := hs i (by simp)
    have hrest := ih fun j hj => hs j (List.mem_cons_of_mem i hj)
    rw [← List.singleton_append, bound_append]
    by_cases hc : i.content = .spacer
    · have hn : i.isSummed = false := by simp [Item.isSummed, hc]
      rw [bound_spacer hc]
      simp [hn, hrest]
    · rw [bound_row hc, List.singleton_append, List.foldlM_cons, List.singleton_append,
        List.filter_cons]
      cases hv : v i.order with
      | none =>
        simp only [ofReal_none, bind, Except.bind, hrest]
        split
        · simp [hv]
        · rfl
      | some y =>
        simp only [ofReal_some, hi]
        split
        · simp only [Number.add_real, bind, Except.bind, hrest, List.filterMap_cons, hv,
            List.foldl_cons]
        · simp only [bind, Except.bind, hrest]

def IsBefore (order : Int) : Reference → Prop
  | .name _ => True
  | .order n => n < order

/-- What the row with an order finds for a reference: the value of a row before it; itself on the
way to its own value; of a later row, nothing yet. -/
def found (values : List (String × Amount)) (v : Int → Option Float) (order : Int) :
    Reference → Except Error Amount
  | .name s => .ok (ofReal (assignment values v (.name s)))
  | .order n =>
    if n < order then .ok (ofReal (v n))
    else if n = order then .error (Chain.cycleError [.order order] (.order order))
    else .error (.forwardReference order n none)

theorem found_before {order : Int} {ref : Reference} (h : IsBefore order ref) :
    found values v order ref = .ok (ofReal (assignment values v ref)) := by
  cases ref with
  | name s => rfl
  | order n => exact if_pos h

theorem found_not_before {order : Int} {ref : Reference} (h : ¬ IsBefore order ref) :
    ∃ e, Error.IsOutOfOrder e ∧ found values v order ref = .error e := by
  cases ref with
  | name s => exact absurd trivial h
  | order n =>
    have hle : ¬ n < order := h
    rw [found, if_neg hle]
    by_cases heq : n = order
    · rw [if_pos heq]
      exact ⟨_, Or.inl ⟨_, rfl⟩, rfl⟩
    · rw [if_neg heq]
      exact ⟨_, Or.inr ⟨_, _, _, rfl⟩, rfl⟩

end Layout

namespace Report
open Layout
variable {r : Report} {values : List (String × Amount)} {movements : List Movement}
  {v : Int → Option Float} {item : Item} {pre rest : List Item}

theorem Sound.typeOf?_eq (h : r.Sound) {i : Item} (hi : i ∈ r.layout) :
    typeOf? r.sortedLayout i.order = some i.content.type := by
  unfold typeOf?
  cases hf : r.sortedLayout.reverse.find? fun j => decide (j.order = i.order) with
  | none =>
    have hn := List.find?_eq_none.1 hf i (by simpa using mem_sortedLayout.2 hi)
    simp at hn
  | some j =>
    have hj := List.mem_of_find?_eq_some hf
    rw [List.mem_reverse] at hj
    have ho := List.find?_some hf
    rw [decide_eq_true_eq] at ho
    rw [Option.map_some, h.eq_of_order (mem_sortedLayout.1 hj) hi ho]

theorem Sound.isSummed_eq (h : r.Sound) {i : Item} (hi : i ∈ r.layout) (first last : Int) :
    isSummed r.sortedLayout first last i.order =
      (first ≤ i.order && i.order ≤ last && i.isSummed) := by
  unfold isSummed Item.isSummed
  rw [h.typeOf?_eq hi]
  cases i.content <;> rfl

theorem getPair?_laterRows (order : Int) {i : Item} (hi : i ∈ r.layout) :
    getPair? (.order i.order) (laterRows r.sortedLayout order) =
      some (.refused (.forwardReference order i.order none)) := by
  refine getPair?_map (fun i : Item => Reference.order i.order)
    (fun i => Definition.refused (.forwardReference order i.order none))
    (mem_sortedLayout.2 hi) fun j _ ho => ?_
  simp only [Reference.order.injEq] at ho
  simp only [ho]

section Position
variable (h : r.Sound) (hl : r.sortedLayout = pre ++ item :: rest)
  (hv : ∀ p ∈ r.vars, ∃ x, getPair? p.1 values = some (ofReal x))
include h hl

theorem Sound.not_bound {n : Int} (hn : item.order ≤ n) :
    (Bindings.mk values (bound v pre)).get? (.order n) = none := by
  refine getPair?_bound_eq_none fun i hi => ?_
  have := h.lt_of_mem_before hl hi
  omega

include hv in
theorem Sound.lookup_run {ref : Reference} (hk : r.Known ref) (site : Site) :
    (lookup (some (laterRows r.sortedLayout item.order)) [.order item.order] site ref).run
      ⟨values, bound v pre⟩ = (found values v item.order ref, ⟨values, bound v pre⟩) := by
  cases ref with
  | name s =>
    obtain ⟨x, hx⟩ := exists_value_of_hasVariable hv hk
    have hget : (Bindings.mk values (bound v pre)).get? (.name s) = some (ofReal x) := hx
    rw [lookup_bound hget, found, assignment, hx]
    simp
  | order n =>
    obtain ⟨i, hi, rfl, hc⟩ := hk
    by_cases hlt : i.order < item.order
    · have hget : (Bindings.mk values (bound v pre)).get? (.order i.order) = _ :=
        getPair?_bound (h.mem_before_of_lt hl hi hlt) hc
      rw [lookup_bound hget, found, if_pos hlt]
    · have hnone : (Bindings.mk values (bound v pre)).get? (.order i.order) = none :=
        h.not_bound hl (by omega)
      by_cases heq : i.order = item.order
      · rw [found, if_neg hlt, if_pos heq, heq]
        rw [heq] at hnone
        exact lookup_entered hnone (if_pos (by simp))
      · rw [found, if_neg hlt, if_neg heq]
        refine lookup_refused hnone (if_neg ?_) (getPair?_laterRows item.order hi)
        simpa using heq

theorem Sound.filter_before {first last : Int} (hc : item.content = .subtotal first last) :
    (r.sortedLayout.filter fun i => first ≤ i.order && i.order ≤ last && i.isSummed) =
      pre.filter fun i => first ≤ i.order && i.order ≤ last && i.isSummed := by
  have hi : item ∈ r.layout := mem_sortedLayout.1 (by simp [hl])
  have hnone : ((item :: rest).filter fun i =>
      first ≤ i.order && i.order ≤ last && i.isSummed) = [] := by
    refine List.filter_eq_nil_iff.2 fun i hm hp => ?_
    simp only [Bool.and_eq_true, decide_eq_true_eq] at hp
    have hm' : i ∈ r.layout := mem_sortedLayout.1 (by simp [hl, List.mem_cons.1 hm])
    have hlt := h.lt_of_summed hi hc hm' hp.1.2 hp.2
    rcases List.mem_cons.1 hm with rfl | hm
    · omega
    · have := h.lt_of_mem_after hl hm
      omega
  rw [hl, List.filter_append, hnone, List.append_nil]

include hv in
theorem Sound.value_run (hb : item.RefersBack)
    (he : Equation r.sortedLayout values movements v item (v item.order)) :
    (value r.sortedLayout movements item).run ⟨values, bound v pre⟩ =
      (.ok (ofReal (v item.order)), ⟨values, bound v pre⟩) := by
  have hi : item ∈ r.layout := mem_sortedLayout.1 (by simp [hl])
  have hg := h.grounded item hi
  unfold Grounded at hg
  unfold Equation at he
  unfold value
  cases hc : item.content with
  | ofVariable name =>
    simp only [hc] at he ⊢
    rw [Attempt.run_bind_ok _ Attempt.run_get]
    simp only [he]
    rfl
  | category filter =>
    simp only [hc] at he ⊢
    obtain ⟨f, hf, hsum⟩ := he
    have hval : (Measure.mk (.map filter) (.text Aggregate.sum.name)).value movements =
        .ok (ofReal (v item.order), (movements.filter f.holds).length) := by
      simp only [Measure.value, Measure.amounts, hf, Except.map, bind, Except.bind,
        Aggregate.reduce, Aggregate.read_sum, hsum, Except.mapError, List.length_map]
      rfl
    simp only [hval]
    rfl
  | calculated expression =>
    simp only [hc] at he hg ⊢
    obtain ⟨node, hn, hx⟩ := he
    obtain ⟨node', hn', hk⟩ := hg
    rw [hn, Except.ok.injEq] at hn'
    subst hn'
    have hfound : ∀ ref ∈ node.occurrences, ∀ _ : Nat,
        found values v item.order ref = .ok (ofReal (assignment values v ref)) := by
      intro ref hm _
      cases ref with
      | name s => rfl
      | order n => exact found_before (hb expression node hc hn n hm)
    have hrun := node.value_run fun ref hm position =>
      h.lookup_run (v := v) hl hv (hk ref hm) ⟨some expression, some position⟩
    rw [node.outcome_eq_meaning hfound, ← hx] at hrun
    simp only [evaluateAs, Chain.enter, List.not_mem_nil, if_false, evaluate, evaluateWith, hn,
      List.nil_append]
    exact hrun
  | subtotal first last =>
    simp only [hc] at he ⊢
    rw [Attempt.run_bind_ok _ Attempt.run_get]
    have hsum := subtotal_bound (v := v) fun i (hm : i ∈ pre) =>
      h.isSummed_eq (mem_sortedLayout.1 (by simp [hl, hm])) first last
    rw [← h.filter_before hl hc] at hsum
    simp only [hsum]
    rw [he]
    rfl
  | spacer =>
    simp only [hc] at he ⊢
    rw [he]
    rfl

include hv in
theorem Sound.value_error (hb : ¬ item.RefersBack) : ∃ e, Error.IsOutOfOrder e ∧
    (value r.sortedLayout movements item).run ⟨values, bound v pre⟩ =
      (.error e, ⟨values, bound v pre⟩) := by
  have hi : item ∈ r.layout := mem_sortedLayout.1 (by simp [hl])
  have hg := h.grounded item hi
  unfold Item.RefersBack at hb
  simp only [Classical.not_forall] at hb
  obtain ⟨expression, node, hc, hn, n, hm, hle⟩ := hb
  simp only [Grounded, hc] at hg
  obtain ⟨node', hn', hk⟩ := hg
  rw [hn, Except.ok.injEq] at hn'
  subst hn'
  have hrun := node.value_run fun ref hm position =>
    h.lookup_run (v := v) hl hv (hk ref hm) ⟨some expression, some position⟩
  have hfound : ∀ ref ∈ node.occurrences, IsBefore item.order ref → ∀ _ : Nat,
      found values v item.order ref = .ok (ofReal (assignment values v ref)) :=
    fun ref _ hb _ => found_before hb
  have hlate : ∀ ref ∈ node.occurrences, ¬ IsBefore item.order ref → ∀ _ : Nat,
      ∃ e, Error.IsOutOfOrder e ∧ found values v item.order ref = .error e :=
    fun ref _ hb _ => found_not_before hb
  obtain ⟨e, he, ho⟩ := Node.outcome_error (IsBefore item.order) Error.IsOutOfOrder node
    hfound hlate ⟨.order n, hm, hle⟩
  rw [ho] at hrun
  refine ⟨e, he, ?_⟩
  unfold value
  simp only [hc, evaluateAs, Chain.enter, List.not_mem_nil, if_false, evaluate, evaluateWith, hn,
    List.nil_append]
  exact hrun

end Position

theorem Sound.rows_run (h : r.Sound) (pre rest : List Item) {items : List Item}
    (hv : ∀ p ∈ r.vars, ∃ x, getPair? p.1 values = some (ofReal x))
    (hl : r.sortedLayout = pre ++ (items ++ rest)) (hb : ∀ i ∈ items, i.RefersBack)
    (he : ∀ i ∈ items, Equation r.sortedLayout values movements v i (v i.order)) :
    (items.mapM (row r.sortedLayout movements)).run ⟨values, bound v pre⟩ =
      (.ok (items.map fun i => Row.ofItem i (ofReal (v i.order))),
        ⟨values, bound v (pre ++ items)⟩) := by
  induction items generalizing pre with
  | nil => simp
  | cons item items ih =>
    rw [List.cons_append] at hl
    have hne : ∀ i ∈ pre, i.order ≠ item.order := fun i hi => by
      have := h.lt_of_mem_before hl hi
      omega
    have hrow := row_run hne (h.value_run hl hv (hb item (by simp)) (he item (by simp)))
    have hrest := ih (pre ++ [item]) (by simp [hl]) (fun i hi => hb i (by simp [hi]))
      fun i hi => he i (by simp [hi])
    rw [List.mapM_cons, Attempt.run_bind_ok _ hrow, Attempt.run_bind_ok _ hrest]
    simp

theorem Sound.rows_eq (h : r.Sound) (ha : r.Ascending)
    (hv : ∀ p ∈ r.vars, ∃ x, getPair? p.1 values = some (ofReal x))
    (he : Solves r.sortedLayout values movements v) :
    r.rows values movements =
      .ok (r.sortedLayout.map fun i => Row.ofItem i (ofReal (v i.order))) := by
  have hrun := h.rows_run [] [] hv (by simp)
    (fun i hi => ha i (mem_sortedLayout.1 hi)) he
  exact congrArg Prod.fst hrun

theorem Sound.exists_rows (h : r.Sound) (ha : r.Ascending)
    (hv : ∀ p ∈ r.vars, ∃ x, getPair? p.1 values = some (ofReal x))
    (hm : ∀ m ∈ movements, m.amount.IsReal) :
    ∃ v : Int → Option Float, Solves r.sortedLayout values movements v ∧
      r.rows values movements =
        .ok (r.sortedLayout.map fun i => Row.ofItem i (ofReal (v i.order))) := by
  obtain ⟨v, he⟩ := h.exists_solution (List.append_nil r.sortedLayout).symm
    (fun i hi => ha i (mem_sortedLayout.1 hi)) hv hm
  exact ⟨v, he, h.rows_eq ha hv he⟩

/-- The pass over a report that is not ascending stops at a cycle or at a later row. -/
theorem Sound.rows_error (h : r.Sound) (ha : ¬ r.Ascending)
    (hv : ∀ p ∈ r.vars, ∃ x, getPair? p.1 values = some (ofReal x))
    (hm : ∀ m ∈ movements, m.amount.IsReal) :
    ∃ e, Error.IsOutOfOrder e ∧ r.rows values movements = .error e := by
  have hex : ∃ i ∈ r.sortedLayout, ¬ i.RefersBack := by
    unfold Ascending at ha
    simp only [Classical.not_forall] at ha
    obtain ⟨i, hi, hn⟩ := ha
    exact ⟨i, mem_sortedLayout.2 hi, hn⟩
  obtain ⟨pre, item, rest, hl, hb, hn⟩ := exists_first hex
  obtain ⟨v, hsol⟩ := h.exists_solution hl hb hv hm
  have hrun := h.rows_run [] (item :: rest) hv (by simpa using hl) hb hsol
  rw [bound_nil, List.nil_append] at hrun
  have hstop : ∃ e, Error.IsOutOfOrder e ∧
      (value r.sortedLayout movements item).run ⟨values, bound v pre⟩ =
        (.error e, ⟨values, bound v pre⟩) := h.value_error hl hv hn
  obtain ⟨e, he, hval⟩ := hstop
  have hall : ∀ layout, layout = pre ++ item :: rest →
      (layout.mapM (row r.sortedLayout movements)).run ⟨values, []⟩ =
        (.error e, ⟨values, bound v pre⟩) := by
    rintro layout rfl
    rw [List.mapM_append, Attempt.run_bind_ok _ hrun, List.mapM_cons]
    exact Attempt.run_bind_error _ (Attempt.run_bind_error _ (row_run_error hval))
  exact ⟨e, he, congrArg Prod.fst (hall r.sortedLayout hl)⟩

def shares : Report where
  id := "shares"
  name := "Shares"
  version := "1.0.0"
  statement := .income
  description := none
  vars := [("revenue", ⟨[(.text "code1", .text "400")], "sum", none⟩)]
  layout := [⟨50, none, none, none, 0, .subtotal 10 40⟩,
    ⟨40, none, none, none, 0, .calculated "@20 / revenue"⟩,
    ⟨30, none, none, none, 0, .spacer⟩,
    ⟨20, none, none, none, 0, .category []⟩,
    ⟨10, none, none, none, 0, .ofVariable "revenue"⟩]
  formatting := none

def sale : Movement :=
  .ofFields (some (.real 120.0)) 2024 1 fun
    | .code1 => .text "400"
    | _ => .null

/-- A report without issues passes the checks exactly if its rows can be computed, and exactly if
its calculated rows refer to rows before them only; otherwise both fail with a cycle or a
reference to a later row. -/
theorem check_agrees_with_rows (r : Report) (values : List (String × Amount))
    (movements : List Movement) (hi : r.issues = .ok [])
    (hv : ∀ p ∈ r.vars, ∃ x, getPair? p.1 values = some (ofReal x))
    (hm : ∀ m ∈ movements, m.amount.IsReal) :
    (r.check.outcome = .ok () ↔ r.Ascending) ∧
    ((∃ rows, r.rows values movements = .ok rows) ↔ r.Ascending) ∧
    (¬ r.Ascending →
      (∃ e, Error.IsOutOfOrder e ∧ r.check.outcome = .error e) ∧
      ∃ e, Error.IsOutOfOrder e ∧ r.rows values movements = .error e) := by
  have h := sound_of_issues hi
  have hcheck := check_ok_iff hi
  refine ⟨hcheck, ⟨fun hrows => ?_, fun ha => ?_⟩, fun ha => ⟨?_, h.rows_error ha hv hm⟩⟩
  · by_cases ha : r.Ascending
    · exact ha
    · obtain ⟨rows, hr⟩ := hrows
      obtain ⟨e, -, he⟩ := h.rows_error ha hv hm
      rw [hr] at he
      cases he
  · obtain ⟨v, he⟩ := h.exists_solution (List.append_nil r.sortedLayout).symm
      (fun i hi => ha i (mem_sortedLayout.1 hi)) hv hm
    exact ⟨_, h.rows_eq ha hv he⟩
  · cases hc : r.check.outcome with
    | ok _ => exact absurd (hcheck.1 hc) ha
    | error e => exact ⟨e, check_error hi hc, rfl⟩

def knot : Report :=
  { shares with
    layout := [⟨10, none, none, none, 0, .calculated "@20 + revenue"⟩,
      ⟨20, none, none, none, 0, .calculated "-@10"⟩] }

theorem check_agrees_with_rows_knot :
    knot.issues = .ok [] ∧
    (∀ p ∈ knot.vars, ∃ x, getPair? p.1 [("revenue", none)] = some (ofReal x)) ∧
    (∀ m ∈ [sale], m.amount.IsReal) ∧
    ¬ knot.Ascending ∧
    (∃ e, Error.IsOutOfOrder e ∧ knot.check.outcome = .error e) ∧
    ∃ e, Error.IsOutOfOrder e ∧ knot.rows [("revenue", none)] [sale] = .error e := by
  have hi : knot.issues = .ok [] := by cbv
  have hv : ∀ p ∈ knot.vars, ∃ x, getPair? p.1 [("revenue", none)] = some (ofReal x) := by
    intro p hp
    rw [List.mem_singleton.1 hp]
    exact ⟨none, rfl⟩
  have hm : ∀ m ∈ [sale], m.amount.IsReal := by
    intro m hm
    rw [List.mem_singleton.1 hm]
    rfl
  obtain ⟨-, -, hboth⟩ := check_agrees_with_rows knot _ _ hi hv hm
  have hread : Node.read "@20 + revenue" =
      .ok (.binary .add (.orderAt 20 0) (.variableAt "revenue" 6)) := by cbv
  have ha : ¬ knot.Ascending := by
    intro ha
    have hlt := ha ⟨10, none, none, none, 0, .calculated "@20 + revenue"⟩ (by simp [knot])
      _ _ rfl hread 20 (by simp [Node.occurrences])
    simp at hlt
  exact ⟨hi, hv, hm, ha, hboth ha⟩

end Report
end LedgerReport
