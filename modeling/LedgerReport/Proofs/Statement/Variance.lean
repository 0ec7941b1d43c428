import LedgerReport.Proofs.Amounts
import LedgerReport.Proofs.Traversal
import LedgerReport.Statement.Variance
set_option autoImplicit false

namespace LedgerReport
open Amount

namespace Variance

theorem derive_real (base comparison : Option Float) :
    ∃ change percent, derive (ofReal base) (ofReal comparison) =
      .ok (ofReal change, ofReal percent) := by
  cases base with
  | none => exact ⟨none, none, rfl⟩
  | some b =>
    cases comparison with
    | none => exact ⟨none, none, rfl⟩
    | some c =>
      have hsub : (Number.real c).sub (.real b) = .ok (.real (c - b)) := rfl
      have hdiv : (Number.real (c - b)).div (Number.real b).abs = .ok (.real ((c - b) / b.abs)) :=
        rfl
      have hundred : Decimal.ofWhole? 100 = some 100.0 := by decide +kernel
      have hmul : (Number.real ((c - b) / b.abs)).mul (.whole 100) =
          .ok (.real ((c - b) / b.abs * 100.0)) := by
        simp only [Number.mul, Number.lift, Number.toFloat, hundred]
        rfl
      by_cases hz : (Number.real b).isZero = true
      · refine ⟨some (c - b), none, ?_⟩
        simp only [derive, ofReal_some, hsub, hz, bind, Except.bind, if_true]
        rfl
      · refine ⟨some (c - b), some ((c - b) / b.abs * 100.0), ?_⟩
        simp only [derive, ofReal_some, hsub, hz, hdiv, hmul, bind, Except.bind]
        rfl

theorem valueAt?_real {rows : List Row} (h : ∀ r ∈ rows, r.value.IsReal) (n : Int) :
    ∃ x, (valueAt? rows n).join = ofReal x := by
  unfold valueAt?
  cases hf : rows.reverse.find? fun r => r.order = n with
  | none => exact ⟨none, rfl⟩
  | some r =>
    have hr := h r (List.mem_reverse.1 (List.mem_of_find?_eq_some hf))
    exact ⟨_, hr.eq_ofReal⟩

theorem compareRow_ok {others : List Row} {r : Row} (hr : r.value.IsReal)
    (hothers : ∀ r ∈ others, r.value.IsReal) : ∃ compared, compareRow others r = .ok compared := by
  obtain ⟨y, hy⟩ := valueAt?_real hothers r.order
  obtain ⟨change, percent, hd⟩ := derive_real (real? r.value) y
  rw [← hr.eq_ofReal, ← hy] at hd
  unfold compareRow
  split
  · exact ⟨r, rfl⟩
  · simp only [hd, Except.mapError, bind, Except.bind]
    exact ⟨_, rfl⟩

theorem apply_ok {rows others : List Row} (hrows : ∀ r ∈ rows, r.value.IsReal)
    (hothers : ∀ r ∈ others, r.value.IsReal) :
    ∃ compared, (apply rows others).outcome = .ok compared := by
  have hc : ∃ compared, rows.mapM (compareRow others) = .ok compared :=
    mapM_ok fun r hr => compareRow_ok (hrows r hr) hothers
  obtain ⟨compared, hc⟩ := hc
  refine ⟨compared, ?_⟩
  unfold apply
  rw [Logged.outcome_bind, Logged.outcome_ofExcept, hc]
  simp only [bind, Except.bind]
  split <;> rfl

end Variance
end LedgerReport
