import LedgerReport.Proofs.Period.Members
import LedgerReport.Proofs.Traversal
set_option autoImplicit false

namespace LedgerReport

namespace YearPeriod
variable {p : YearPeriod} {ps : List YearPeriod}

def ordinal (p : YearPeriod) : Int := 12 * p.year + p.period - 1

def ofOrdinal (n : Int) : YearPeriod := ⟨n / 12, n % 12 + 1⟩

def InYear (p : YearPeriod) : Prop := 1 ≤ p.period ∧ p.period ≤ 12

theorem inYear_ofOrdinal (n : Int) : (ofOrdinal n).InYear := by
  constructor
  all_goals
    simp only [ofOrdinal]
    omega

theorem ordinal_ofOrdinal (n : Int) : (ofOrdinal n).ordinal = n := by
  simp only [ordinal, ofOrdinal]
  omega

theorem InYear.ofOrdinal_ordinal (h : p.InYear) : ofOrdinal p.ordinal = p := by
  obtain ⟨year, period⟩ := p
  obtain ⟨hl, hu⟩ := h
  simp only [ofOrdinal, ordinal, mk.injEq] at *
  omega

theorem ordinal_previous (p : YearPeriod) : p.previous.ordinal = p.ordinal - 1 := by
  unfold previous ordinal
  split_ifs <;> simp only <;> omega

theorem InYear.previous (h : p.InYear) : p.previous.InYear := by
  obtain ⟨hl, hu⟩ := h
  unfold YearPeriod.previous InYear
  split_ifs <;> simp only <;> omega

/-- A number of periods that end with a period, numbered consecutively. -/
def run (n : Nat) (p : YearPeriod) : List YearPeriod :=
  (List.range n).map fun (i : Nat) => ofOrdinal (p.ordinal + 1 - n + i)

theorem run_succ (h : p.InYear) (n : Nat) : run (n + 1) p = run n p.previous ++ [p] := by
  have hlast : p.ordinal + 1 - ((n + 1 : Nat) : Int) + n = p.ordinal := by omega
  rw [run, List.range_succ, List.map_append, List.map_singleton, hlast, h.ofOrdinal_ordinal]
  congr 1
  refine List.map_congr_left fun i _ => ?_
  rw [ordinal_previous]
  congr 1
  omega

theorem reverse_countBack (h : p.InYear) (n : Nat) : (countBack n p).reverse = run n p := by
  induction n generalizing p with
  | zero => rfl
  | succ n ih => rw [countBack, List.reverse_cons, ih h.previous, run_succ h]

theorem inYear_of_mem_run {n : Nat} {q : YearPeriod} (h : q ∈ run n p) : q.InYear := by
  obtain ⟨i, -, rfl⟩ := List.mem_map.1 h
  exact inYear_ofOrdinal _

theorem pairwise_run (n : Nat) (p : YearPeriod) :
    (run n p).Pairwise fun a b => a.ordinal < b.ordinal := by
  refine List.pairwise_map.2 (List.pairwise_lt_range.imp fun hij => ?_)
  rw [ordinal_ofOrdinal, ordinal_ofOrdinal]
  omega

theorem run_ne_nil {n : Nat} (h : 0 < n) : run n p ≠ [] := by
  rw [run, Ne, List.map_eq_nil_iff, List.range_eq_nil]
  omega

theorem eraseDups_of_nodup (h : ps.Nodup) : ps.eraseDups = ps := by
  induction ps with
  | nil => rfl
  | cons p r ih =>
    obtain ⟨hp, hr⟩ := List.nodup_cons.1 h
    have hkept : (r.filter fun q => !q == p) = r := by
      refine List.filter_eq_self.2 fun q hq => ?_
      have hne : q ≠ p := fun hqp => hp (hqp ▸ hq)
      simpa using hne
    rw [List.eraseDups_cons, hkept, ih hr]

theorem sorted_eq_self (h : ps.Pairwise fun a b => a.ordinal < b.ordinal)
    (hy : ∀ p ∈ ps, p.InYear) : sorted ps = ps := by
  have hnodup : ps.Nodup := by
    refine h.imp ?_
    rintro a b hab rfl
    exact Int.lt_irrefl _ hab
  rw [sorted, eraseDups_of_nodup hnodup]
  refine List.mergeSort_of_pairwise (h.imp_of_mem fun ha hb hab => ?_)
  obtain ⟨hal, hau⟩ := hy _ ha
  obtain ⟨hbl, hbu⟩ := hy _ hb
  simp only [ordinal] at hab
  simp only [notAfter, Bool.or_eq_true, Bool.and_eq_true, decide_eq_true_eq]
  omega

end YearPeriod

open YearPeriod

namespace Window
variable {period months : Int}

theorem checkPeriod_eq_ok (what : String) (h : 1 ≤ period ∧ period ≤ 12) :
    checkPeriod what (.whole period) = .ok period := if_pos h

theorem checkPeriod_eq_error (what : String) (h : ¬ (1 ≤ period ∧ period ≤ 12)) :
    checkPeriod what (.whole period) = .error (.invalidSelector (.period what (.whole period))) :=
  if_neg h

theorem ofPairs_eq_ok {ps : List YearPeriod} (hne : ps ≠ []) (hy : ∀ p ∈ ps, p.InYear)
    (name : String) : ofPairs (ps.map fun p => (p.year, .whole p.period)) name =
      .ok ⟨sorted ps, name, sorted_ne_nil hne⟩ := by
  have hchecked : (ps.map fun p => (p.year, Value.whole p.period)).mapM
      (fun p => (checkPeriod "period" p.2).map fun n => (⟨p.1, n⟩ : YearPeriod)) = .ok ps := by
    rw [List.mapM_map, mapM_eq_map (g := id) fun p hp => ?_, List.map_id]
    simp only [Function.comp, checkPeriod_eq_ok _ (hy p hp)]
    rfl
  have hsome : (ps.map fun p => (p.year, Value.whole p.period)).isEmpty = false := by
    simpa using hne
  unfold ofPairs
  rw [hsome, hchecked]
  simp only [bind, Except.bind, pure, Except.pure, Bool.false_eq_true, if_false, dif_neg hne]

theorem ext {w v : Window} (hp : w.periods = v.periods) (hn : w.name = v.name) : w = v := by
  cases w
  cases v
  cases hp
  cases hn
  rfl

theorem ending_eq_ok (year : Int) (name : String) (hp : 1 ≤ period ∧ period ≤ 12)
    (hm : 0 < months) :
    ∃ w, ending year (.whole period) months name = .ok w ∧
      w.periods = run months.toNat ⟨year, period⟩ ∧ w.name = name := by
  have hrun := reverse_countBack (p := ⟨year, period⟩) hp months.toNat
  have hne := run_ne_nil (p := ⟨year, period⟩) (n := months.toNat) (by omega)
  have hy := fun q (hq : q ∈ run months.toNat ⟨year, period⟩) => inYear_of_mem_run hq
  refine ⟨⟨sorted (run months.toNat ⟨year, period⟩), name, sorted_ne_nil hne⟩, ?_,
    sorted_eq_self (pairwise_run _ _) hy, rfl⟩
  unfold ending
  rw [checkPeriod_eq_ok _ hp]
  simp only [bind, Except.bind, if_neg (Int.not_le.2 hm), hrun]
  exact ofPairs_eq_ok hne hy name

theorem ending_eq_error (year : Int) (name : String)
    (h : ¬ ((1 ≤ period ∧ period ≤ 12) ∧ 0 < months)) :
    ∃ fault, ending year (.whole period) months name = .error (.invalidSelector fault) := by
  unfold ending
  by_cases hp : 1 ≤ period ∧ period ≤ 12
  · have hm : months ≤ 0 := Int.not_lt.1 fun hm => h ⟨hp, hm⟩
    rw [checkPeriod_eq_ok _ hp]
    simp only [bind, Except.bind, if_pos hm]
    exact ⟨_, rfl⟩
  · rw [checkPeriod_eq_error _ hp]
    exact ⟨_, rfl⟩

end Window
end LedgerReport
