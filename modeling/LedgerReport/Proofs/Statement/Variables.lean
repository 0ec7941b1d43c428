import LedgerReport.Proofs.Report.Sound
import LedgerReport.Proofs.Amounts
import LedgerReport.Statement.Measure
import Mathlib.Tactic.Choose
set_option autoImplicit false

namespace LedgerReport
open Amount

theorem Filter.describe_ok (entries : Entries) : ∃ s, describe (.map entries) = .ok s := by
  unfold describe
  split
  · exact ⟨_, rfl⟩
  · exact ⟨_, rfl⟩

namespace Measure
variable {m : Measure} {movements : List Movement}

theorem value_of_apply {f : Filter} {aggregate : Aggregate} {a : Amount}
    (hf : Filter.read m.filter = .ok f) (hm : Aggregate.read m.aggregate = .ok aggregate)
    (ha : aggregate.apply ((movements.filter f.holds).map Movement.amount) = .ok a) :
    m.value movements = .ok (a, (movements.filter f.holds).length) := by
  simp only [value, amounts, hf, Except.map, Aggregate.reduce, hm, bind, Except.bind, ha,
    Except.mapError, List.length_map]
  rfl

/-- A measure whose value can be computed is resolved to it, with a warning or without. -/
theorem resolve_of_value {name : String} {filter : Entries} {a : Amount} {matched : Nat}
    (hf : m.filter = .map filter) (h : m.value movements = .ok (a, matched)) :
    (resolve name (.ok m) movements).outcome = .ok a := by
  obtain ⟨s, hs⟩ := Filter.describe_ok filter
  unfold resolve
  simp only [Logged.outcome_ofExcept, h, bind]
  by_cases hn : matched = 0
  · simp only [hn, hf, hs]
    rfl
  · simp only [hn]
    rfl

end Measure

theorem Resolver.resolveAll_outcome (r : Resolver) (measures : Measures)
    (movements : List Movement) :
    (r.resolveAll measures movements).outcome =
      measures.mapM fun m => (Measure.resolve m.1 m.2 movements).outcome.map fun a => (m.1, a) := by
  unfold resolveAll
  split
  · simp only [resolveTogether, List.mapM_map, Function.comp_def]
  · rw [resolveInTurn, Logged.outcome_mapM]
    refine congrArg (List.mapM · measures) (funext fun m => ?_)
    rw [Logged.outcome_bind]
    cases (Measure.resolve m.1 m.2 movements).outcome <;> rfl

namespace Report
variable {r : Report} {movements : List Movement}

theorem Sound.value_ok (h : r.Sound) {v : String × Variable} (hv : v ∈ r.vars)
    (hm : ∀ m ∈ movements, m.amount.IsReal) :
    ∃ x n, (Measure.ofVariable v.2).value movements = .ok (ofReal x, n) := by
  obtain ⟨f, hf⟩ := h.filters v hv
  obtain ⟨a, ha⟩ := h.aggregates v hv
  have hreal : ∀ b ∈ (movements.filter f.holds).map Movement.amount, b.IsReal := by
    intro b hb
    obtain ⟨m, hfm, rfl⟩ := List.mem_map.1 hb
    exact hm m (List.mem_filter.1 hfm).1
  obtain ⟨x, hx⟩ := a.apply_real hreal
  have hread : Aggregate.read (Measure.ofVariable v.2).aggregate = .ok a := by
    simp only [Measure.ofVariable, Aggregate.read, ha]
  exact ⟨x, _, Measure.value_of_apply hf hread hx⟩

theorem Sound.resolve_ok (h : r.Sound) {v : String × Variable} (hv : v ∈ r.vars)
    (hm : ∀ m ∈ movements, m.amount.IsReal) :
    ∃ x, (Measure.resolve v.1 (.ok (Measure.ofVariable v.2)) movements).outcome =
      .ok (ofReal x) := by
  obtain ⟨x, n, hx⟩ := h.value_ok hv hm
  exact ⟨x, Measure.resolve_of_value rfl hx⟩

theorem Sound.resolveAll_ok (h : r.Sound) (resolver : Resolver)
    (hm : ∀ m ∈ movements, m.amount.IsReal) :
    ∃ values, (resolver.resolveAll r.measures movements).outcome = .ok values ∧
      ∀ v ∈ r.vars, ∃ x, getPair? v.1 values = some (ofReal x) := by
  choose! x hx using fun v (hv : v ∈ r.vars) => h.resolve_ok hv hm
  refine ⟨r.vars.map fun v => (v.1, ofReal (x v)), ?_, fun v hv => ?_⟩
  · rw [resolver.resolveAll_outcome, measures, List.mapM_map]
    refine mapM_eq_map fun v hv => ?_
    rw [Function.comp_apply, hx v hv]
    rfl
  · have hmem : (v.1, ofReal (x v)) ∈ r.vars.map fun v => (v.1, ofReal (x v)) :=
      List.mem_map.2 ⟨v, hv, rfl⟩
    obtain ⟨b, hb, hmem⟩ := exists_getPair? hmem
    obtain ⟨w, -, hw⟩ := List.mem_map.1 hmem
    obtain ⟨-, rfl⟩ := Prod.mk.inj hw
    exact ⟨x w, hb⟩

end Report
end LedgerReport
