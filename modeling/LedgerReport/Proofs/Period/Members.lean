import LedgerReport.Period
set_option autoImplicit false

namespace LedgerReport

theorem YearPeriod.mem_sorted {ps : List YearPeriod} {p : YearPeriod} :
    p ∈ sorted ps ↔ p ∈ ps := by
  rw [sorted, List.mem_mergeSort, List.mem_eraseDups]

namespace Dataset
variable {d : Dataset} {ps : List YearPeriod} {p : YearPeriod}

/-- The movements of some periods, in the order in which they were provided. -/
def within (d : Dataset) (ps : List YearPeriod) : List Movement :=
  d.movements.filter fun m => m.yearPeriod ∈ ps

theorem mem_periods : p ∈ d.periods ↔ ∃ m ∈ d.movements, m.yearPeriod = p := by
  rw [periods, YearPeriod.mem_sorted, List.mem_map]

theorem mem_periods_iff_within (hp : p ∈ ps) :
    p ∈ d.periods ↔ ∃ m ∈ d.within ps, m.yearPeriod = p := by
  rw [mem_periods]
  constructor
  · rintro ⟨m, hm, rfl⟩
    exact ⟨m, List.mem_filter.2 ⟨hm, by simpa using hp⟩, rfl⟩
  · rintro ⟨m, hm, hmp⟩
    exact ⟨m, (List.mem_filter.1 hm).1, hmp⟩

end Dataset

namespace Window

theorem present_congr (w : Window) {d d' : Dataset}
    (h : d.within w.periods = d'.within w.periods) :
    w.present d.periods = w.present d'.periods := by
  unfold present
  congr 1
  refine List.filter_congr fun p hp => ?_
  rw [Bool.eq_iff_iff, List.contains_iff_mem, List.contains_iff_mem,
    Dataset.mem_periods_iff_within hp, Dataset.mem_periods_iff_within hp, h]

end Window

namespace Selector
variable {s : Selector} {d d' : Dataset}

theorem mem_periodsUpTo {year : Int} {through : Nat} {p : YearPeriod} :
    p ∈ periodsUpTo year through ↔ p.year = year ∧ 1 ≤ p.period ∧ p.period ≤ through := by
  simp only [periodsUpTo, List.mem_map, List.mem_range]
  constructor
  · rintro ⟨i, hi, rfl⟩
    exact ⟨rfl, by simp only; omega, by simp only; omega⟩
  · rintro ⟨rfl, hl, hu⟩
    refine ⟨(p.period - 1).toNat, by omega, ?_⟩
    rw [Int.toNat_of_nonneg (by omega)]
    simp

theorem contains_iff {p : YearPeriod} : s.contains p ↔ p ∈ s.periods := by
  cases s with
  | year y =>
    rw [periods, mem_periodsUpTo]
    simp [contains, and_assoc]
  | toDate y through =>
    rw [periods, mem_periodsUpTo]
    simp only [contains, Bool.and_eq_true, decide_eq_true_eq]
    omega
  | window w => exact List.contains_iff_mem

theorem select_eq_within : s.select d = d.within s.periods := by
  refine List.filter_congr fun m _ => ?_
  rw [Bool.eq_iff_iff, contains_iff, decide_eq_true_iff]

/-- What a selection gives, and whether the data reaches as far as it, shows in the movements of
its periods. -/
theorem restrict_congr (s : Selector) (policy : Policy)
    (h : d.within s.periods = d'.within s.periods) :
    s.restrict policy d = s.restrict policy d' := by
  have hs : s.select d = s.select d' := by rw [select_eq_within, select_eq_within, h]
  cases s with
  | year y => exact congrArg pure hs
  | toDate y through => exact congrArg pure hs
  | window w =>
    have hp : w.present d.periods = w.present d'.periods := w.present_congr h
    simp only [restrict, hp, hs]

end Selector
end LedgerReport
