import LedgerReport.Proofs.Period.Built
/-!
Windows that end with a period.

Such a window has as many periods as it was asked for, with consecutive numbers and the given
period as the last one, across as many turns of the year as that takes. Where it starts with the
first period of a year, it gives the same movements as the selection within that year.
-/

set_option autoImplicit false

namespace LedgerReport

namespace YearPeriod
variable {p : YearPeriod}

theorem length_run (n : Nat) (p : YearPeriod) : (run n p).length = n := by simp [run]

theorem before_run (n : Nat) (p : YearPeriod) : (run n p).Pairwise Before :=
  (pairwise_run n p).imp_of_mem fun ha hb h =>
    before_of_ordinal_lt (inYear_of_mem_run ha) (inYear_of_mem_run hb) h

theorem isChain_run (n : Nat) (p : YearPeriod) :
    (run n p).IsChain fun a b => b.ordinal = a.ordinal + 1 := by
  refine List.isChain_iff_getElem.2 fun i hi => ?_
  simp only [run, List.getElem_map, List.getElem_range, ordinal_ofOrdinal]
  omega

/-- A run up to a period, with as many periods as there are up to it, stays in the year. -/
theorem run_eq_periodsUpTo {year period : Int} (h : 1 ≤ period ∧ period ≤ 12) :
    run period.toNat ⟨year, period⟩ = Selector.periodsUpTo year period.toNat := by
  refine List.map_congr_left fun i hi => ?_
  have hi := List.mem_range.1 hi
  simp only [ordinal, ofOrdinal, mk.injEq]
  omega

end YearPeriod

open YearPeriod

namespace Window

theorem finish_eq_of_run {w : Window} {n : Nat} {p : YearPeriod} (hp : p.InYear)
    (h : w.periods = run (n + 1) p) : w.finish = p := by
  obtain ⟨periods, name, hne⟩ := w
  subst h
  simp only [finish, run_succ hp, List.getLast_append_singleton]

end Window

namespace Selector
variable {s t : Selector}

theorem restrict_takePart_eq (h : s.periods = t.periods) (d : Dataset) :
    (s.restrict .takePart d).outcome = (t.restrict .takePart d).outcome := by
  have hnone : ∀ s : Selector, s.shortfall? .takePart d = none := fun s => by cases s <;> rfl
  rw [restrict_eq_ok (hnone s), restrict_eq_ok (hnone t), select_eq_within, select_eq_within, h]

/-- A window of as many periods as there are up to a period of a year gives the same as the year up
to that period. -/
theorem exists_ending_upTo {year period : Int} (name : String) (h : 1 ≤ period ∧ period ≤ 12) :
    ∃ w s, Window.ending year (.whole period) period name = .ok w ∧
      upTo year (.whole period) = .ok s ∧ w.periods = s.periods := by
  have hpos : 0 < period := by omega
  obtain ⟨w, hw, hperiods, -⟩ := Window.ending_eq_ok year name h hpos
  refine ⟨w, .toDate year period, hw, ?_, hperiods.trans (run_eq_periodsUpTo h)⟩
  rw [upTo, Window.checkPeriod_eq_ok _ h]
  rfl

end Selector

namespace Window

/-- A window that ends with a period has the periods with the given number of consecutive numbers
up to that period, and there is one exactly if that is a period of a year and the number is
positive. -/
theorem ending_exact (year period months : Int) (name : String) :
    ((1 ≤ period ∧ period ≤ 12) ∧ 1 ≤ months →
      ∃ w, ending year (.whole period) months name = .ok w ∧ w.periods.Pairwise Before ∧
        w.periods.length = months ∧ (∀ p ∈ w.periods, p.InYear) ∧ w.finish = ⟨year, period⟩ ∧
        w.periods.IsChain fun a b => b.ordinal = a.ordinal + 1) ∧
    (¬ ((1 ≤ period ∧ period ≤ 12) ∧ 1 ≤ months) →
      ∃ fault, ending year (.whole period) months name = .error (.invalidSelector fault)) ∧
    (1 ≤ period ∧ period ≤ 12 →
      ∃ w s, ending year (.whole period) period name = .ok w ∧
        Selector.upTo year (.whole period) = .ok s ∧
        ∀ d, ((Selector.window w).restrict .takePart d).outcome =
          (s.restrict .takePart d).outcome) ∧
    ∃ w, ending year (.whole 12) 12 name = .ok w ∧
      ∀ d, ((Selector.window w).restrict .takePart d).outcome =
        ((Selector.year year).restrict .takePart d).outcome := by
  refine ⟨fun ⟨hp, hm⟩ => ?_, fun h => ending_eq_error year name h, fun hp => ?_, ?_⟩
  · obtain ⟨w, hw, hperiods, -⟩ := ending_eq_ok year name hp hm
    obtain ⟨n, hn⟩ : ∃ n : Nat, months.toNat = n + 1 := ⟨months.toNat - 1, by omega⟩
    refine ⟨w, hw, ?_, ?_, ?_, ?_, ?_⟩
    · rw [hperiods]
      exact before_run _ _
    · rw [hperiods, length_run]
      omega
    · rw [hperiods]
      exact fun p => inYear_of_mem_run
    · rw [hn] at hperiods
      exact finish_eq_of_run hp hperiods
    · rw [hperiods]
      exact isChain_run _ _
  · obtain ⟨w, s, hw, hs, hperiods⟩ := Selector.exists_ending_upTo name hp
    exact ⟨w, s, hw, hs, Selector.restrict_takePart_eq hperiods⟩
  · obtain ⟨w, s, hw, hs, hperiods⟩ := @Selector.exists_ending_upTo year 12 name (by decide)
    obtain ⟨rfl, -⟩ := Selector.of_upTo hs
    exact ⟨w, hw, Selector.restrict_takePart_eq hperiods⟩

theorem ending_exact_turns :
    (∃ w, ending 0 (.whole 1) 14 "LTM" = .ok w ∧ w.periods.length = (14 : Int) ∧
      w.finish = ⟨0, 1⟩) ∧
    (∃ fault, ending 0 (.whole 13) 14 "LTM" = .error (.invalidSelector fault)) ∧
    ∃ w s, ending 0 (.whole 7) 7 "LTM" = .ok w ∧ Selector.upTo 0 (.whole 7) = .ok s ∧
      ∀ d, ((Selector.window w).restrict .takePart d).outcome =
        (s.restrict .takePart d).outcome := by
  obtain ⟨w, hw, -, hlength, -, hfinish, -⟩ := (ending_exact 0 1 14 "LTM").1 (by decide)
  have hrefused := (ending_exact 0 13 14 "LTM").2.1 (by decide)
  have hyear := (ending_exact 0 7 7 "LTM").2.2.1 (by decide)
  exact ⟨⟨w, hw, hlength, hfinish⟩, hrefused, hyear⟩

end Window
end LedgerReport
