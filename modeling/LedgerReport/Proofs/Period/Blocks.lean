import Mathlib.Data.Int.Range
import Mathlib.Data.List.Pairwise
import LedgerReport.Proofs.Period.Built
set_option autoImplicit false

namespace LedgerReport

abbrev Block := Int × Int × Int

namespace Block
variable {b : Block} {blocks : List Block} {ps : List YearPeriod} {p : YearPeriod}

def periods (b : Block) : List YearPeriod :=
  (Int.range b.2.1 (b.2.2 + 1)).map fun n => ⟨b.1, n⟩

def start (b : Block) : YearPeriod := ⟨b.1, b.2.1⟩

theorem mem_periods : p ∈ periods b ↔ p.year = b.1 ∧ b.2.1 ≤ p.period ∧ p.period ≤ b.2.2 := by
  obtain ⟨year, n⟩ := p
  simp only [periods, List.mem_map, Int.mem_range_iff, YearPeriod.mk.injEq]
  constructor
  · rintro ⟨m, hm, rfl, rfl⟩
    omega
  · rintro ⟨rfl, hn⟩
    exact ⟨n, by omega, rfl, rfl⟩

theorem periods_single (p : YearPeriod) : periods (p.year, p.period, p.period) = [p] := by
  simp [periods, Int.range]

theorem periods_extend {year first last : Int} (h : first ≤ last) :
    periods (year, first, last + 1) = periods (year, first, last) ++ [⟨year, last + 1⟩] := by
  have hsucc : (last + 1 + 1 - first).toNat = (last + 1 - first).toNat + 1 := by omega
  have hlast : first + ((last + 1 - first).toNat : Int) = last + 1 := by omega
  simp only [periods, Int.range, hsucc, List.range_succ, List.map_append, List.map_cons,
    List.map_nil, hlast]

/-- Whether a block ends before another one starts, with a period of the year between them if they
are in the same year. -/
def Apart (b c : Block) : Prop := b.1 < c.1 ∨ b.1 = c.1 ∧ b.2.2 + 1 < c.2.1

structure Cuts (blocks : List Block) (ps : List YearPeriod) : Prop where
  exact : blocks.reverse.flatMap periods = ps
  ordered : ∀ b ∈ blocks, b.2.1 ≤ b.2.2
  apart : blocks.Pairwise fun c b => Apart b c

def extend (blocks : List Block) (p : YearPeriod) : List Block :=
  match blocks with
  | (year, first, last) :: r =>
    if year = p.year ∧ last = p.period - 1 then (year, first, p.period) :: r
    else (p.year, p.period, p.period) :: blocks
  | [] => [(p.year, p.period, p.period)]

theorem Cuts.mem_iff (h : Cuts blocks ps) : p ∈ ps ↔ ∃ b ∈ blocks, p ∈ periods b := by
  rw [← h.exact, List.mem_flatMap]
  simp only [List.mem_reverse]

theorem Cuts.start_mem (h : Cuts blocks ps) (hb : b ∈ blocks) : start b ∈ ps :=
  h.mem_iff.2 ⟨b, hb, mem_periods.2 ⟨rfl, Int.le_refl _, h.ordered b hb⟩⟩

theorem Cuts.last_mem (h : Cuts blocks ps) (hb : b ∈ blocks) : ⟨b.1, b.2.2⟩ ∈ ps :=
  h.mem_iff.2 ⟨b, hb, mem_periods.2 ⟨rfl, h.ordered b hb, Int.le_refl _⟩⟩

theorem Cuts.lengthened {year first last : Int} (h : Cuts ((year, first, last) :: blocks) ps) :
    Cuts ((year, first, last + 1) :: blocks) (ps ++ [⟨year, last + 1⟩]) := by
  obtain ⟨hexact, hordered, hapart⟩ := h
  rw [List.forall_mem_cons] at hordered
  rw [List.pairwise_cons] at hapart
  have hle : first ≤ last := hordered.1
  refine ⟨?_, List.forall_mem_cons.2 ⟨?_, hordered.2⟩, List.pairwise_cons.2 ⟨?_, hapart.2⟩⟩
  · rw [← hexact]
    simp [List.flatMap_append, periods_extend hle]
  · simp only
    omega
  · -- Where a block starts is all that matters to the blocks before it.
    exact fun b hb => hapart.1 b hb

theorem Cuts.opened (h : Cuts blocks ps)
    (hp : ∀ b ∈ blocks, Apart b (p.year, p.period, p.period)) :
    Cuts ((p.year, p.period, p.period) :: blocks) (ps ++ [p]) := by
  refine ⟨?_, List.forall_mem_cons.2 ⟨Int.le_refl _, h.ordered⟩,
    List.pairwise_cons.2 ⟨hp, h.apart⟩⟩
  rw [← h.exact]
  simp [List.flatMap_append, periods_single]

theorem Cuts.apart_of_before {year first last : Int} (h : Cuts ((year, first, last) :: blocks) ps)
    (hp : ∀ q ∈ ps, q.Before p) (hnext : ¬ (year = p.year ∧ last = p.period - 1)) :
    ∀ b ∈ (year, first, last) :: blocks, Apart b (p.year, p.period, p.period) := by
  have hlast := hp _ (h.last_mem List.mem_cons_self)
  have hle := h.ordered _ List.mem_cons_self
  unfold YearPeriod.Before at hlast
  simp only at hlast hle
  refine List.forall_mem_cons.2 ⟨?_, fun b hb => ?_⟩
  · simp only [Apart]
    omega
  · have hb := (List.pairwise_cons.1 h.apart).1 b hb
    simp only [Apart] at hb ⊢
    omega

theorem Cuts.extend (h : Cuts blocks ps) (hp : ∀ q ∈ ps, q.Before p) :
    Cuts (extend blocks p) (ps ++ [p]) := by
  cases blocks with
  | nil => exact h.opened (by simp)
  | cons b r =>
    obtain ⟨year, first, last⟩ := b
    -- The period lengthens the last block, or there is a gap in front of it.
    by_cases hnext : year = p.year ∧ last = p.period - 1
    · obtain ⟨year', period⟩ := p
      obtain ⟨rfl, hlast⟩ := hnext
      obtain rfl : period = last + 1 := by
        simp only at hlast
        omega
      simpa [Block.extend] using h.lengthened
    · simpa [Block.extend, hnext] using h.opened (h.apart_of_before hp hnext)

theorem Cuts.foldl_extend {qs : List YearPeriod} (h : Cuts blocks ps)
    (hasc : (ps ++ qs).Pairwise YearPeriod.Before) :
    Cuts (qs.foldl Block.extend blocks) (ps ++ qs) := by
  induction qs generalizing blocks ps with
  | nil => simpa using h
  | cons q qs ih =>
    have hq : ∀ p ∈ ps, p.Before q := fun p hp =>
      (List.pairwise_append.1 hasc).2.2 p hp q List.mem_cons_self
    have hih := ih (h.extend hq) (by simpa using hasc)
    simpa using hih

theorem Cuts.before_start_not_mem (h : Cuts blocks ps) (hb : b ∈ blocks) :
    ⟨b.1, b.2.1 - 1⟩ ∉ ps := by
  intro hp
  obtain ⟨c, hc, hpc⟩ := h.mem_iff.1 hp
  obtain ⟨hyear, hfirst, hlast⟩ := mem_periods.1 hpc
  simp only at hyear hfirst hlast
  have hne : c ≠ b := by
    rintro rfl
    omega
  have hle := h.ordered b hb
  have heither : blocks.Pairwise fun c b => Apart b c ∨ Apart c b := h.apart.imp .inl
  have : Std.Symm fun c b => Apart b c ∨ Apart c b := ⟨fun _ _ => Or.symm⟩
  rcases heither.forall hc hb hne with hapart | hapart
  all_goals
    simp only [Apart] at hapart
    omega

theorem Cuts.nodup_starts (h : Cuts blocks ps) : (blocks.map start).Nodup := by
  refine List.pairwise_map.2 (h.apart.imp_of_mem fun {c b} hc hb hapart heq => ?_)
  have hle := h.ordered b hb
  simp only [start, YearPeriod.mk.injEq] at heq
  simp only [Apart] at hapart
  omega

/-- Blocks of the same periods, whatever they are and in whatever order, are no fewer. -/
theorem Cuts.length_le {others : List Block} (h : Cuts blocks ps)
    (hsame : ∀ p, p ∈ others.flatMap periods ↔ p ∈ ps) : blocks.length ≤ others.length := by
  -- A block that has a start and not the period before it starts there as well.
  have hstarts : blocks.map start ⊆ others.map start := by
    intro p hp
    obtain ⟨b, hb, rfl⟩ := List.mem_map.1 hp
    obtain ⟨c, hc, hbc⟩ := List.mem_flatMap.1 ((hsame _).2 (h.start_mem hb))
    obtain ⟨hyear, hfirst, hlast⟩ := mem_periods.1 hbc
    refine List.mem_map.2 ⟨c, hc, ?_⟩
    have hmissing : ¬ c.2.1 ≤ b.2.1 - 1 := by
      intro hle
      refine h.before_start_not_mem hb ((hsame _).1 (List.mem_flatMap.2 ⟨c, hc, ?_⟩))
      exact mem_periods.2 ⟨hyear, hle, by simp only [start] at hlast ⊢; omega⟩
    simp only [start, YearPeriod.mk.injEq] at hyear hfirst ⊢
    omega
  have hle := (List.subperm_of_subset h.nodup_starts hstarts).length_le
  simpa using hle

end Block

namespace Window
open Block

/-- The blocks of a window hold its periods, each once and in ascending order. Every block lies
within a year, no block goes on where another one of its year ends, and there is no way to hold the
same periods in fewer blocks. -/
theorem ranges_exact {pairs : List (Int × Value)} {name : String} {w : Window}
    (h : ofPairs pairs name = .ok w) :
    w.ranges.flatMap Block.periods = w.periods ∧ w.periods.Pairwise YearPeriod.Before ∧
    (∀ b ∈ w.ranges, 1 ≤ b.2.1 ∧ b.2.1 ≤ b.2.2 ∧ b.2.2 ≤ 12) ∧
    w.ranges.Pairwise Apart ∧
    ∀ blocks : List Block, (∀ p, p ∈ blocks.flatMap Block.periods ↔ p ∈ w.periods) →
      w.ranges.length ≤ blocks.length := by
  obtain ⟨given, -, -, hin, hperiods, -⟩ := of_ofPairs h
  have hasc : w.periods.Pairwise YearPeriod.Before := hperiods ▸ YearPeriod.pairwise_sorted given
  have hcuts : Cuts (w.periods.foldl extend []) w.periods :=
    Cuts.foldl_extend ⟨rfl, by simp, .nil⟩ hasc
  have hranges : w.ranges = (w.periods.foldl extend []).reverse := rfl
  have hyear : ∀ p ∈ w.periods, p.InYear := fun p hp =>
    hin p (YearPeriod.mem_sorted.1 (hperiods ▸ hp))
  refine ⟨hcuts.exact, hasc, fun b hb => ?_, ?_, fun blocks hsame => ?_⟩
  · rw [hranges, List.mem_reverse] at hb
    exact ⟨(hyear _ (hcuts.start_mem hb)).1, hcuts.ordered b hb,
      (hyear _ (hcuts.last_mem hb)).2⟩
  · rw [hranges, List.pairwise_reverse]
    exact hcuts.apart
  · rw [hranges, List.length_reverse]
    exact hcuts.length_le hsame

/-- Periods around the turn of a year and behind a gap, out of order and with a repetition. -/
def gapped : List YearPeriod := [⟨2024, 5⟩, ⟨2024, 1⟩, ⟨2023, 12⟩, ⟨2024, 2⟩, ⟨2023, 12⟩]

theorem ranges_exact_gapped :
    ∃ w, ofPairs (gapped.map fun p => (p.year, .whole p.period)) "Gapped" = .ok w ∧
      w.ranges = [(2023, 12, 12), (2024, 1, 2), (2024, 5, 5)] ∧
      w.ranges.flatMap Block.periods = w.periods ∧
      ∀ blocks : List Block, (∀ p, p ∈ blocks.flatMap Block.periods ↔ p ∈ w.periods) →
        3 ≤ blocks.length := by
  have hin : ∀ p ∈ gapped, p.InYear := by simp [gapped, YearPeriod.InYear]
  have hok := ofPairs_eq_ok (by decide) hin "Gapped"
  obtain ⟨hperiods, -, -, -, hfewest⟩ := ranges_exact hok
  have honce : gapped.eraseDups = [⟨2024, 5⟩, ⟨2024, 1⟩, ⟨2023, 12⟩, ⟨2024, 2⟩] := by decide
  have hsorted : YearPeriod.sorted gapped = [⟨2023, 12⟩, ⟨2024, 1⟩, ⟨2024, 2⟩, ⟨2024, 5⟩] := by
    simp [YearPeriod.sorted, honce, List.mergeSort, YearPeriod.notAfter]
  have hranges : (Window.mk (YearPeriod.sorted gapped) "Gapped"
      (YearPeriod.sorted_ne_nil (by decide))).ranges =
        [(2023, 12, 12), (2024, 1, 2), (2024, 5, 5)] := by
    simp only [ranges, hsorted]
    decide
  refine ⟨_, hok, hranges, hperiods, fun blocks hsame => ?_⟩
  have hle := hfewest blocks hsame
  rwa [hranges] at hle

end Window
end LedgerReport
