import Mathlib.Data.Finset.Card
import LedgerReport.Proofs.Period.Run
import LedgerReport.Proofs.Period.Selection
/-!
Selections as they are built, and what they give of a dataset.

The periods of a window are given in any order, some of them perhaps more than once; the window
lists each of them once, in ascending order. So a selection contains what it lists, gives the
movements of what it lists, and falls short of a dataset exactly if it is a window with a period
that has no movement.
-/

set_option autoImplicit false

namespace LedgerReport

namespace YearPeriod
variable {ps : List YearPeriod}

def Before (a b : YearPeriod) : Prop :=
  a.year < b.year ∨ a.year = b.year ∧ a.period < b.period

theorem Before.ne {a b : YearPeriod} (h : a.Before b) : a ≠ b := by
  rintro rfl
  unfold Before at h
  omega

theorem before_of_ordinal_lt {a b : YearPeriod} (ha : a.InYear) (hb : b.InYear)
    (h : a.ordinal < b.ordinal) : a.Before b := by
  obtain ⟨hal, hau⟩ := ha
  obtain ⟨hbl, hbu⟩ := hb
  simp only [ordinal] at h
  unfold Before
  omega

theorem before_of_notAfter {a b : YearPeriod} (h : a.notAfter b) (hne : a ≠ b) : a.Before b := by
  have hne : ¬ (a.year = b.year ∧ a.period = b.period) := fun ⟨hy, hp⟩ => hne (by
    cases a
    cases b
    simp_all)
  simp only [notAfter, Bool.or_eq_true, Bool.and_eq_true, decide_eq_true_eq] at h
  unfold Before
  omega

theorem pairwise_sorted (ps : List YearPeriod) : (sorted ps).Pairwise Before := by
  have hsorted : (sorted ps).Pairwise fun a b => a.notAfter b := by
    refine List.pairwise_mergeSort (fun a b c => ?_) (fun a b => ?_) _
    all_goals
      simp only [notAfter, Bool.or_eq_true, Bool.and_eq_true, decide_eq_true_eq]
      omega
  have hnodup : (sorted ps).Nodup := List.nodup_mergeSort.2 (nodup_eraseDups ps)
  exact (hsorted.and hnodup).imp fun h => before_of_notAfter h.1 h.2

theorem nodup_of_before (h : ps.Pairwise Before) : ps.Nodup := h.imp Before.ne

theorem toFinset_sorted (ps : List YearPeriod) : (sorted ps).toFinset = ps.toFinset := by
  ext p
  rw [List.mem_toFinset, List.mem_toFinset, mem_sorted]

theorem length_sorted (ps : List YearPeriod) : (sorted ps).length = ps.toFinset.card := by
  rw [← toFinset_sorted, List.toFinset_card_of_nodup (nodup_of_before (pairwise_sorted ps))]

end YearPeriod

open YearPeriod

namespace Window
variable {pairs : List (Int × Value)} {given : List YearPeriod} {name : String} {w : Window}
  {d : Dataset}

theorem checkPeriod_eq_ok_iff {what : String} {v : Value} {n : Int} :
    checkPeriod what v = .ok n ↔ v = .whole n ∧ 1 ≤ n ∧ n ≤ 12 := by
  constructor
  · intro h
    unfold checkPeriod at h
    split at h
    · split at h
      · rename_i m hm
        cases h
        exact ⟨rfl, hm⟩
      · cases h
    · cases h
  · rintro ⟨rfl, hn⟩
    exact checkPeriod_eq_ok what hn

theorem of_ofPairs (h : ofPairs pairs name = .ok w) : ∃ given : List YearPeriod,
    pairs = given.map (fun p => (p.year, .whole p.period)) ∧ given ≠ [] ∧
      (∀ p ∈ given, p.InYear) ∧ w.periods = sorted given ∧ w.name = name := by
  unfold ofPairs at h
  split at h
  · cases h
  · obtain ⟨given, hgiven, h⟩ := bind_eq_ok.1 h
    split at h
    · cases h
    · rename_i hne
      cases h
      -- A step keeps a pair as it is, or the window is not built.
      have hstep : ∀ (p : Int × Value) (q : YearPeriod),
          ((checkPeriod "period" p.2).map fun n => (⟨p.1, n⟩ : YearPeriod)) = .ok q →
            (q.year, Value.whole q.period) = p ∧ q.InYear := by
        rintro ⟨year, v⟩ q hq
        obtain ⟨n, hn, rfl⟩ := except_map_eq_ok.1 hq
        obtain ⟨rfl, hin⟩ := checkPeriod_eq_ok_iff.1 hn
        exact ⟨rfl, hin⟩
      refine ⟨given, ?_, hne, fun q hq => ?_, rfl, rfl⟩
      · have hmap := map_eq_of_forall₂ (g := id) (fun p q hq => (hstep p q hq).1)
          (forall₂_of_mapM_eq_ok hgiven)
        rw [List.map_id] at hmap
        exact hmap.symm
      · obtain ⟨p, -, hp⟩ := exists_of_mem_mapM hgiven q hq
        exact (hstep p q hp).2

theorem periods_of_ofPairs
    (h : ofPairs (given.map fun p => (p.year, .whole p.period)) name = .ok w) :
    w.periods = sorted given ∧ ∀ p ∈ given, p.InYear := by
  obtain ⟨given', hpairs, -, hin, hw, -⟩ := of_ofPairs h
  have hinj : Function.Injective fun p : YearPeriod => (p.year, Value.whole p.period) := by
    rintro ⟨y, n⟩ ⟨y', n'⟩ h
    cases h
    rfl
  obtain rfl := List.map_injective_iff.2 hinj hpairs
  exact ⟨hw, hin⟩

theorem present_eq_card (h : w.periods = sorted given) : w.present d.periods =
    (given.toFinset.filter fun p => ∃ m ∈ d.movements, m.yearPeriod = p).card := by
  have hnodup : (w.periods.filter d.periods.contains).Nodup :=
    (nodup_of_before (h ▸ pairwise_sorted given)).filter _
  rw [present, ← List.toFinset_card_of_nodup hnodup, List.toFinset_filter, h,
    toFinset_sorted]
  congr 1
  exact Finset.filter_congr fun p _ => by rw [List.contains_iff_mem, Dataset.mem_periods]

theorem present_lt_iff : w.present d.periods < w.periods.length ↔
    ∃ p ∈ w.periods, ∀ m ∈ d.movements, m.yearPeriod ≠ p := by
  rw [present, List.length_filter_lt_length_iff_exists]
  simp [Dataset.mem_periods]

end Window

namespace Selector
variable {s : Selector} {given : List YearPeriod} {d : Dataset} {p : YearPeriod} {e : Error}

/-- Whether a selection is built from some periods: a year from its twelve periods, a year up to one
of them from those up to it, and a window from those that it is given, in any order and perhaps
repeatedly. -/
inductive Built : Selector → List YearPeriod → Prop where
  | year (y : Int) : Built (.year y) (periodsUpTo y 12)
  | upTo {y n : Int} {s : Selector} : upTo y (.whole n) = .ok s → Built s (periodsUpTo y n.toNat)
  | window {given : List YearPeriod} {name : String} {w : Window} :
      Window.ofPairs (given.map fun p => (p.year, .whole p.period)) name = .ok w →
        Built (.window w) given

theorem of_upTo {y n : Int} (h : upTo y (.whole n) = .ok s) :
    s = .toDate y n ∧ 1 ≤ n ∧ n ≤ 12 := by
  obtain ⟨m, hm, rfl⟩ := except_map_eq_ok.1 h
  obtain ⟨hn, hin⟩ := Window.checkPeriod_eq_ok_iff.1 hm
  cases hn
  exact ⟨rfl, hin⟩

theorem Built.exists_window (hne : given ≠ []) (hin : ∀ p ∈ given, p.InYear) (name : String) :
    ∃ w, Built (.window w) given ∧ w.periods = sorted given ∧ w.name = name :=
  ⟨_, .window (Window.ofPairs_eq_ok hne hin name), rfl, rfl⟩

theorem Built.mem_periods (h : s.Built given) : p ∈ s.periods ↔ p ∈ given := by
  cases h with
  | year y => rfl
  | upTo h =>
    obtain ⟨rfl, -⟩ := of_upTo h
    rfl
  | window h => rw [periods, (Window.periods_of_ofPairs h).1, mem_sorted]

theorem pairwise_periodsUpTo (year : Int) (through : Nat) :
    (periodsUpTo year through).Pairwise Before := by
  refine List.pairwise_map.2 (List.pairwise_lt_range.imp fun hij => ?_)
  exact .inr ⟨rfl, by simp only; omega⟩

theorem Built.pairwise (h : s.Built given) : s.periods.Pairwise Before := by
  cases h with
  | year y => exact pairwise_periodsUpTo y 12
  | upTo h =>
    obtain ⟨rfl, -⟩ := of_upTo h
    exact pairwise_periodsUpTo _ _
  | window h =>
    rw [periods, (Window.periods_of_ofPairs h).1]
    exact pairwise_sorted given

theorem Built.shortfall?_eq_some_iff (h : s.Built given) : s.shortfall? .strict d = some e ↔
    (∃ w, s = .window w) ∧ (∃ p ∈ given, ∀ m ∈ d.movements, m.yearPeriod ≠ p) ∧
      e = .insufficientPeriods s.label given.toFinset.card
        (given.toFinset.filter fun p => ∃ m ∈ d.movements, m.yearPeriod = p).card := by
  cases h with
  | year y =>
    constructor
    · rintro ⟨⟩
    · rintro ⟨⟨w, ⟨⟩⟩, -⟩
  | upTo h =>
    obtain ⟨rfl, -⟩ := of_upTo h
    constructor
    · rintro ⟨⟩
    · rintro ⟨⟨w, ⟨⟩⟩, -⟩
  | @window given name w h =>
    obtain ⟨hw, -⟩ := Window.periods_of_ofPairs h
    have hlacks : (∃ p ∈ given, ∀ m ∈ d.movements, m.yearPeriod ≠ p) ↔
        w.present d.periods < w.periods.length := by
      rw [Window.present_lt_iff, hw]
      simp only [mem_sorted]
    have hlength : w.periods.length = given.toFinset.card := by rw [hw, length_sorted]
    rw [hlacks, ← hlength, ← Window.present_eq_card hw, shortfall?]
    split
    · rename_i hlt
      constructor
      · rintro ⟨⟩
        exact ⟨⟨w, rfl⟩, hlt, rfl⟩
      · rintro ⟨-, -, rfl⟩
        rfl
    · rename_i hlt
      constructor
      · rintro ⟨⟩
      · rintro ⟨-, hlt', -⟩
        exact absurd hlt' hlt

/-- A selection contains what it lists, which is what it was built from, in ascending order. It
gives the movements of these periods, also under the strict policy, unless it is a window with a
period that has no movement. -/
theorem restrict_exact (h : s.Built given) (d : Dataset) :
    (∀ p, s.contains p ↔ p ∈ s.periods) ∧ (∀ p, p ∈ s.periods ↔ p ∈ given) ∧
    s.periods.Pairwise Before ∧
    (s.restrict .takePart d).outcome = .ok (d.movements.filter fun m => s.contains m.yearPeriod) ∧
    (∀ ms, (s.restrict .strict d).outcome = .ok ms → (s.restrict .takePart d).outcome = .ok ms) ∧
    ∀ e, (s.restrict .strict d).outcome = .error e ↔
      (∃ w, s = .window w) ∧ (∃ p ∈ given, ∀ m ∈ d.movements, m.yearPeriod ≠ p) ∧
        e = .insufficientPeriods s.label given.toFinset.card
          (given.toFinset.filter fun p => ∃ m ∈ d.movements, m.yearPeriod = p).card := by
  have hpart : (s.restrict .takePart d).outcome = .ok (s.select d) :=
    restrict_eq_ok (by cases s <;> rfl)
  refine ⟨fun p => contains_iff, fun p => h.mem_periods, h.pairwise, hpart, fun ms hms => ?_,
    fun e => ?_⟩
  · obtain ⟨-, rfl⟩ := restrict_eq_ok_iff.1 hms
    exact hpart
  · rw [← h.shortfall?_eq_some_iff]
    cases hs : s.shortfall? .strict d with
    | none => simp [restrict_eq_ok hs]
    | some e' => simp [restrict_eq_error hs]

def turnGiven : List YearPeriod := [⟨2024, 1⟩, ⟨2023, 12⟩, ⟨2024, 1⟩]

def sparse : Dataset :=
  ⟨[.ofFields none 2024 1 fun _ => .null, .ofFields none 2022 7 fun _ => .null,
    .ofFields none 2024 1 fun _ => .null], "sparse"⟩

theorem restrict_exact_sparse : ∃ w, Built (.window w) turnGiven ∧
    ((Selector.window w).restrict .strict sparse).outcome =
      .error (.insufficientPeriods (Selector.window w).label 2 1) := by
  have hin : ∀ p ∈ turnGiven, p.InYear := by simp [turnGiven, InYear]
  obtain ⟨w, hw, -, -⟩ := Built.exists_window (by decide) hin "Turn"
  have hexpected : turnGiven.toFinset.card = 2 := by decide
  have hpresent :
      (turnGiven.toFinset.filter fun p => ∃ m ∈ sparse.movements, m.yearPeriod = p).card = 1 := by
    decide
  obtain ⟨-, -, -, -, -, hstrict⟩ := restrict_exact hw sparse
  refine ⟨w, hw, (hstrict _).2 ⟨⟨w, rfl⟩, ⟨⟨2023, 12⟩, by decide, by decide⟩, ?_⟩⟩
  rw [hexpected, hpresent]
  rfl

end Selector
end LedgerReport
