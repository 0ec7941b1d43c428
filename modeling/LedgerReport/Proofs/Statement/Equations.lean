import Mathlib.Data.List.Induction
import Mathlib.Logic.Function.Basic
import LedgerReport.Statement.Layout
import LedgerReport.Proofs.Expression.Meaning
import LedgerReport.Proofs.Report.Order
set_option autoImplicit false

namespace LedgerReport
open Amount

namespace Layout

def assignment (values : List (String × Amount)) (v : Int → Option Float) :
    Reference → Option Float
  | .name s => (getPair? s values).bind real?
  | .order n => v n

def Equation (layout : List Item) (values : List (String × Amount)) (movements : List Movement)
    (v : Int → Option Float) (item : Item) (x : Option Float) : Prop :=
  match item.content with
  | .ofVariable name => getPair? name values = some (ofReal x)
  | .category filter => ∃ f, Filter.read (.map filter) = .ok f ∧
      Aggregate.sum.apply ((movements.filter f.holds).map Movement.amount) = .ok (ofReal x)
  | .calculated expression => ∃ node, Node.read expression = .ok node ∧
      x = node.meaning (assignment values v)
  | .subtotal first last => x = some (Aggregate.realSum
      ((layout.filter fun member =>
        first ≤ member.order && member.order ≤ last && member.isSummed).filterMap fun member =>
          v member.order))
  | .spacer => x = none

def Solves (layout : List Item) (values : List (String × Amount)) (movements : List Movement)
    (v : Int → Option Float) : Prop :=
  ∀ item ∈ layout, Equation layout values movements v item (v item.order)

theorem Equation.unique {layout : List Item} {values : List (String × Amount)}
    {movements : List Movement} {v : Int → Option Float} {item : Item} {x y : Option Float}
    (hx : Equation layout values movements v item x)
    (hy : Equation layout values movements v item y) : x = y := by
  unfold Equation at hx hy
  cases hc : item.content with
  | ofVariable name =>
    simp only [hc] at hx hy
    rw [hx, Option.some.injEq] at hy
    exact ofReal_injective hy
  | category filter =>
    simp only [hc] at hx hy
    obtain ⟨f, hf, hx⟩ := hx
    obtain ⟨f', hf', hy⟩ := hy
    rw [hf, Except.ok.injEq] at hf'
    rw [← hf', hx, Except.ok.injEq] at hy
    exact ofReal_injective hy
  | calculated expression =>
    simp only [hc] at hx hy
    obtain ⟨node, hn, hx⟩ := hx
    obtain ⟨node', hn', hy⟩ := hy
    rw [hn, Except.ok.injEq] at hn'
    rw [hx, hy, hn']
  | subtotal first last =>
    simp only [hc] at hx hy
    rw [hx, hy]
  | spacer =>
    simp only [hc] at hx hy
    rw [hx, hy]

end Layout

namespace Report
open Layout
variable {r : Report} {values : List (String × Amount)} {movements : List Movement}
  {v w : Int → Option Float} {item : Item}

theorem Sound.equation_congr (h : r.Sound) (hi : item ∈ r.layout) (hb : item.RefersBack)
    (hvw : ∀ i ∈ r.layout, i.order < item.order → v i.order = w i.order) {x : Option Float}
    (he : Equation r.sortedLayout values movements v item x) :
    Equation r.sortedLayout values movements w item x := by
  have hg := h.grounded item hi
  unfold Grounded at hg
  unfold Equation at he ⊢
  cases hc : item.content with
  | calculated expression =>
    simp only [hc] at hg he ⊢
    obtain ⟨node, hn, hx⟩ := he
    obtain ⟨node', hn', hk⟩ := hg
    rw [hn, Except.ok.injEq] at hn'
    subst hn'
    refine ⟨node, hn, hx.trans (node.meaning_congr fun ref hm => ?_)⟩
    cases ref with
    | name s => rfl
    | order n =>
      obtain ⟨i, hi', rfl, -⟩ := hk _ hm
      exact hvw i hi' (hb expression node hc hn _ hm)
  | subtotal first last =>
    simp only [hc] at he ⊢
    rw [he]
    congr 2
    refine List.filterMap_congr fun member hm => ?_
    obtain ⟨hmem, hp⟩ := List.mem_filter.1 hm
    simp only [Bool.and_eq_true, decide_eq_true_eq] at hp
    have hmem := mem_sortedLayout.1 hmem
    exact hvw member hmem (h.lt_of_summed hi hc hmem hp.1.2 hp.2)
  | ofVariable name => simpa only [hc] using he
  | category filter => simpa only [hc] using he
  | spacer => simpa only [hc] using he

theorem exists_value_of_hasVariable {name : String}
    (hv : ∀ p ∈ r.vars, ∃ x, getPair? p.1 values = some (ofReal x)) (hn : r.hasVariable name) :
    ∃ x, getPair? name values = some (ofReal x) := by
  obtain ⟨p, hp, he⟩ := List.any_eq_true.1 hn
  rw [beq_iff_eq] at he
  exact he ▸ hv p hp

theorem Sound.equation_exists (h : r.Sound) (hi : item ∈ r.layout)
    (hv : ∀ p ∈ r.vars, ∃ x, getPair? p.1 values = some (ofReal x))
    (hm : ∀ m ∈ movements, m.amount.IsReal) (v : Int → Option Float) :
    ∃ x, Equation r.sortedLayout values movements v item x := by
  have hg := h.grounded item hi
  unfold Grounded at hg
  unfold Equation
  cases hc : item.content with
  | ofVariable name =>
    simp only [hc] at hg ⊢
    exact exists_value_of_hasVariable hv hg
  | category filter =>
    simp only [hc] at hg ⊢
    obtain ⟨f, hf⟩ := hg
    have hreal : ∀ a ∈ (movements.filter f.holds).map Movement.amount, IsReal a := by
      intro a ha
      obtain ⟨m, hmem, rfl⟩ := List.mem_map.1 ha
      exact hm m (List.mem_filter.1 hmem).1
    obtain ⟨x, hx⟩ := Aggregate.sum.apply_real hreal
    exact ⟨x, f, hf, hx⟩
  | calculated expression =>
    simp only [hc] at hg ⊢
    obtain ⟨node, hn, -⟩ := hg
    exact ⟨_, node, hn, rfl⟩
  | subtotal first last => exact ⟨_, rfl⟩
  | spacer => exact ⟨none, rfl⟩

section Position
variable {pre rest : List Item}

theorem Sound.lt_of_mem_before (h : r.Sound) (hl : r.sortedLayout = pre ++ item :: rest)
    {i : Item} (hi : i ∈ pre) : i.order < item.order := by
  have hs := h.sorted
  rw [hl] at hs
  exact (List.pairwise_append.1 hs).2.2 i hi item (by simp)

theorem Sound.lt_of_mem_after (h : r.Sound) (hl : r.sortedLayout = pre ++ item :: rest)
    {i : Item} (hi : i ∈ rest) : item.order < i.order := by
  have hs := h.sorted
  rw [hl] at hs
  exact (List.pairwise_cons.1 (List.pairwise_append.1 hs).2.1).1 i hi

theorem Sound.mem_before_of_lt (h : r.Sound) (hl : r.sortedLayout = pre ++ item :: rest)
    {i : Item} (hi : i ∈ r.layout) (ho : i.order < item.order) : i ∈ pre := by
  have hmem := mem_sortedLayout.2 hi
  rw [hl] at hmem
  rcases List.mem_append.1 hmem with hmem | hmem
  · exact hmem
  rcases List.mem_cons.1 hmem with rfl | hmem
  · omega
  · have := h.lt_of_mem_after hl hmem
    omega

end Position

theorem Sound.exists_solution (h : r.Sound) {pre rest : List Item}
    (hl : r.sortedLayout = pre ++ rest) (hb : ∀ i ∈ pre, i.RefersBack)
    (hv : ∀ p ∈ r.vars, ∃ x, getPair? p.1 values = some (ofReal x))
    (hm : ∀ m ∈ movements, m.amount.IsReal) :
    ∃ v : Int → Option Float,
      ∀ i ∈ pre, Equation r.sortedLayout values movements v i (v i.order) := by
  induction pre using List.reverseRecOn generalizing rest with
  | nil => exact ⟨fun _ => none, by simp⟩
  | append_singleton pre item ih =>
    rw [List.append_assoc, List.singleton_append] at hl
    obtain ⟨v, hsol⟩ := ih hl fun i hi => hb i (by simp [hi])
    have hmem : ∀ i ∈ pre ++ [item], i ∈ r.layout := fun i hi =>
      mem_sortedLayout.1 (by rw [hl]; rcases List.mem_append.1 hi with hi | hi <;> simp_all)
    obtain ⟨x, hx⟩ := h.equation_exists (hmem item (by simp)) hv hm v
    -- the new row changes the value of no row before it
    have hsame : ∀ n, n < item.order → v n = Function.update v item.order x n := fun n hn => by
      rw [Function.update_of_ne (by omega)]
    refine ⟨Function.update v item.order x, fun i hi => ?_⟩
    rcases List.mem_append.1 hi with hi' | hi'
    · have hlt := h.lt_of_mem_before hl hi'
      rw [← hsame i.order hlt]
      exact h.equation_congr (hmem i hi) (hb i hi)
        (fun j _ hj => hsame j.order (by omega)) (hsol i hi')
    · rw [List.mem_singleton] at hi'
      subst hi'
      rw [Function.update_self]
      exact h.equation_congr (hmem i hi) (hb i hi) (fun j _ hj => hsame j.order hj) hx

end Report
end LedgerReport
