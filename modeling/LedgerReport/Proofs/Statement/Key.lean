import Mathlib
import LedgerReport.Proofs.Decimal.Fixed
import LedgerReport.Proofs.Numeral
import LedgerReport.Proofs.Period.Built
import LedgerReport.Proofs.Statement.Cache
/-!
What the keys of the cache tell apart.

The key of a selection stands for its kind and its periods and for nothing else, so the name of a
window and the order in which its periods were given do not show in it. A key of the cache stands
for a report and for one or two selections in this sense. A selection has a key as long as all
numbers in it can be written.
-/

set_option autoImplicit false

namespace LedgerReport
open Decimal

namespace Selector
variable {s t : Selector} {given : List YearPeriod}

/-- Whether two selections are two years, two years up to a period, or two windows. -/
def SameKind : Selector → Selector → Prop
  | year _, year _ => True
  | toDate _ _, toDate _ _ => True
  | window _, window _ => True
  | _, _ => False

/-- Whether two selections are of one kind and list the same periods. -/
def Agree (s t : Selector) : Prop := s.SameKind t ∧ s.periods = t.periods

theorem Built.periods_ne_nil (h : s.Built given) : s.periods ≠ [] := by
  cases h with
  | year y => simp [periods, periodsUpTo]
  | upTo h =>
    obtain ⟨rfl, hl, -⟩ := of_upTo h
    simp only [periods, periodsUpTo, Ne, List.map_eq_nil_iff, List.range_eq_nil]
    omega
  | @window given name w h => exact w.nonempty

theorem periodsUpTo_inj {y z : Int} {m n : Nat} (h : periodsUpTo y m = periodsUpTo z n)
    (hm : periodsUpTo y m ≠ []) : y = z ∧ m = n := by
  have hlength := congrArg List.length h
  simp only [periodsUpTo, List.length_map, List.length_range] at hlength
  obtain ⟨p, hp⟩ := List.exists_mem_of_ne_nil _ hm
  have hy := (mem_periodsUpTo.1 hp).1
  have hz := (mem_periodsUpTo.1 (h ▸ hp)).1
  exact ⟨hy.symm.trans hz, hlength⟩

theorem same_iff_agree (hs : s.periods ≠ []) : s.Same t ↔ s.Agree t := by
  constructor
  · intro h
    cases s <;> cases t <;> simp_all [Same, Agree, SameKind, periods]
  · rintro ⟨hkind, hperiods⟩
    cases s with
    | year y =>
      cases t with
      | year z => exact (periodsUpTo_inj hperiods hs).1
      | toDate z n => exact hkind
      | window u => exact hkind
    | toDate y m =>
      cases t with
      | year z => exact hkind
      | toDate z n =>
        obtain ⟨rfl, hmn⟩ := periodsUpTo_inj hperiods hs
        have hpos : m.toNat ≠ 0 := by
          intro h0
          exact hs (by simp [periods, h0, periodsUpTo])
        exact ⟨rfl, by omega⟩
      | window u => exact hkind
    | window w =>
      cases t with
      | year z => exact hkind
      | toDate z n => exact hkind
      | window u => exact hperiods

theorem Same.keyText_eq (h : s.Same t) : s.keyText = t.keyText := by
  cases s <;> cases t <;> simp_all [Same, keyText]

theorem Same.numbers_eq (h : s.Same t) : s.numbers = t.numbers := by
  cases s <;> cases t <;> simp_all [Same, numbers]

/-- Whether all numbers in the key of a selection can be written. -/
def IsWritable (s : Selector) : Prop := ∀ n ∈ s.numbers, n.natAbs < tenTo Numeral.digitLimit

theorem all_isWritable_iff : s.numbers.all Numeral.isWritable = true ↔ s.IsWritable := by
  simp only [List.all_eq_true, IsWritable, Numeral.isWritable_iff]

theorem key_eq_ok_iff {text : String} : s.key = .ok text ↔ s.IsWritable ∧ s.keyText = text := by
  rw [← all_isWritable_iff, key]
  split <;> simp [*]

theorem key_eq_error_iff {e : Error} : s.key = .error e ↔ ¬ s.IsWritable ∧ e = .unwritable := by
  rw [← all_isWritable_iff, key]
  split <;> simp [*, eq_comm]

theorem key_eq_iff_agree (hs : s.periods ≠ []) {text : String} (h : s.key = .ok text) :
    t.key = .ok text ↔ s.Agree t := by
  obtain ⟨hwritable, rfl⟩ := key_eq_ok_iff.1 h
  rw [← same_iff_agree hs]
  constructor
  · intro ht
    exact same_of_keyText (key_eq_ok_iff.1 ht).2.symm
  · intro hsame
    refine key_eq_ok_iff.2 ⟨?_, hsame.keyText_eq.symm⟩
    rwa [IsWritable, ← hsame.numbers_eq]

end Selector

namespace CacheKey
open Selector
variable {id id' : String} {base base' : Selector} {comparison comparison' : Option Selector}

theorem rel_same_iff_agree (hc : ∀ s ∈ comparison, s.periods ≠ []) :
    Option.Rel Same comparison comparison' ↔ Option.Rel Agree comparison comparison' := by
  constructor
  · intro h
    cases h with
    | none => exact .none
    | some h => exact .some ((same_iff_agree (hc _ rfl)).1 h)
  · intro h
    cases h with
    | none => exact .none
    | some h => exact .some ((same_iff_agree (hc _ rfl)).2 h)

theorem make_eq_ok_iff {k : CacheKey} : make id base comparison = .ok k ↔
    base.IsWritable ∧ (∀ s ∈ comparison, s.IsWritable) ∧ ofSelectors id base comparison = k := by
  unfold make ofSelectors
  rw [bind_eq_ok]
  simp only [key_eq_ok_iff]
  cases comparison with
  | none => simp [pure, Except.pure, bind, Except.bind]
  | some s =>
    simp only [Option.mapM_some, Option.mem_some_iff, forall_eq', Option.map_some]
    constructor
    · rintro ⟨text, ⟨hb, rfl⟩, h⟩
      obtain ⟨other, hother, h⟩ := bind_eq_ok.1 h
      obtain ⟨text', ht, rfl⟩ := except_map_eq_ok.1 hother
      obtain ⟨hs, rfl⟩ := key_eq_ok_iff.1 ht
      exact ⟨hb, hs, Except.ok.inj h⟩
    · rintro ⟨hb, hs, rfl⟩
      refine ⟨_, ⟨hb, rfl⟩, bind_eq_ok.2 ⟨some s.keyText, ?_, rfl⟩⟩
      exact except_map_eq_ok.2 ⟨_, key_eq_ok_iff.2 ⟨hs, rfl⟩, rfl⟩

theorem make_error {e : Error} (h : make id base comparison = .error e) : e = .unwritable := by
  unfold make at h
  rcases bind_eq_error.1 h with hb | ⟨text, -, h⟩
  · exact (key_eq_error_iff.1 hb).2
  rcases bind_eq_error.1 h with hs | ⟨other, -, h⟩
  · cases comparison with
    | none => cases hs
    | some s =>
      cases hk : s.key with
      | ok text =>
        simp [hk, Functor.map, Except.map] at hs
      | error e' =>
        obtain ⟨-, rfl⟩ := key_eq_error_iff.1 hk
        simp [hk, Functor.map, Except.map] at hs
        exact hs.symm
  · cases h

theorem ofSelectors_congr (hb : base.Same base') (hc : Option.Rel Same comparison comparison') :
    ofSelectors id base comparison = ofSelectors id base' comparison' := by
  unfold ofSelectors
  rw [hb.keyText_eq]
  cases hc with
  | none => rfl
  | some h => rw [Option.map_some, Option.map_some, h.keyText_eq]

theorem make_congr {k : CacheKey} (h : make id base comparison = .ok k) (hb : base.Same base')
    (hc : Option.Rel Same comparison comparison') : make id base' comparison' = .ok k := by
  obtain ⟨hbase, hcomparison, rfl⟩ := make_eq_ok_iff.1 h
  refine make_eq_ok_iff.2 ⟨?_, ?_, (ofSelectors_congr hb hc).symm⟩
  · rwa [IsWritable, ← hb.numbers_eq]
  · cases hc with
    | none => nofun
    | some hsame =>
      rintro s ⟨⟩
      rw [IsWritable, ← hsame.numbers_eq]
      exact hcomparison _ rfl

/-- A selection has a key, and an evaluation too, exactly if all numbers in it can be written. The
keys of two selections are the same exactly if the selections are of one kind and list the same
periods, and the keys of two evaluations exactly if that holds of what they select and they are of
one report. -/
theorem make_eq_iff (hb : ∃ ps, base.Built ps) (hc : ∀ s ∈ comparison, ∃ ps, s.Built ps) :
    (∀ text, base.key = .ok text → (base'.key = .ok text ↔ base.Agree base')) ∧
    (∀ k, make id base comparison = .ok k → (make id' base' comparison' = .ok k ↔
      id = id' ∧ base.Agree base' ∧ Option.Rel Agree comparison comparison')) ∧
    ((∃ text, base.key = .ok text) ↔ base.IsWritable) ∧
    (∀ e, base.key = .error e → e = .unwritable) ∧
    ((∃ k, make id base comparison = .ok k) ↔
      base.IsWritable ∧ ∀ s ∈ comparison, s.IsWritable) ∧
    ∀ e, make id base comparison = .error e → e = .unwritable := by
  have hbase : base.periods ≠ [] := hb.elim fun _ h => h.periods_ne_nil
  have hcomparison : ∀ s ∈ comparison, s.periods ≠ [] := fun s hs =>
    (hc s hs).elim fun _ h => h.periods_ne_nil
  refine ⟨fun text h => key_eq_iff_agree hbase h, fun k hk => ?_, ?_,
    fun e h => (key_eq_error_iff.1 h).2, ?_, fun e h => make_error h⟩
  · rw [← same_iff_agree hbase, ← rel_same_iff_agree hcomparison]
    constructor
    · intro hk'
      obtain ⟨-, -, rfl⟩ := make_eq_ok_iff.1 hk
      exact ofSelectors_inj (make_eq_ok_iff.1 hk').2.2.symm
    · rintro ⟨rfl, hsame, hrel⟩
      exact make_congr hk hsame hrel
  · simp [key_eq_ok_iff]
  · simp [make_eq_ok_iff]

def zeroTurn : List YearPeriod := [⟨-1, 12⟩, ⟨0, 1⟩]

def zeroTurnAgain : List YearPeriod := [⟨0, 1⟩, ⟨-1, 12⟩, ⟨0, 1⟩]

theorem make_eq_iff_zeroTurn : ∃ w v k, Built (.window w) zeroTurn ∧
    Built (.window v) zeroTurnAgain ∧
    make "drawer" (.year 0) (some (.window w)) = .ok k ∧
    make "drawer" (.year 0) (some (.window v)) = .ok k ∧
    make "drawer" (.toDate 0 12) (some (.window w)) ≠ .ok k := by
  have hin : ∀ p ∈ zeroTurn, p.InYear := by simp [zeroTurn, YearPeriod.InYear]
  have hin' : ∀ p ∈ zeroTurnAgain, p.InYear := by simp [zeroTurnAgain, YearPeriod.InYear]
  obtain ⟨w, hw, hperiods, -⟩ := Built.exists_window (by decide) hin "Turn"
  obtain ⟨v, hv, hperiods', -⟩ := Built.exists_window (by decide) hin' "Turn again"
  have honce : zeroTurn.eraseDups = [⟨-1, 12⟩, ⟨0, 1⟩] := by decide
  have honce' : zeroTurnAgain.eraseDups = [⟨0, 1⟩, ⟨-1, 12⟩] := by decide
  have hsame : w.periods = v.periods := by
    rw [hperiods, hperiods']
    simp [YearPeriod.sorted, honce, honce', List.mergeSort, YearPeriod.notAfter]
  have hbase : ∃ ps, Built (.year 0) ps := ⟨_, .year 0⟩
  have hcomparison : ∀ s ∈ some (Selector.window w), ∃ ps, s.Built ps := by
    rintro s ⟨⟩
    exact ⟨_, hw⟩
  have hlimit : 12 < Numeral.digitLimit := by decide
  have hsmall : ∀ n : Int, n.natAbs ≤ 12 → n.natAbs < tenTo Numeral.digitLimit := fun n hn =>
    hn.trans_lt (hlimit.trans (lt_tenTo _))
  have hyear : (Selector.year 0).IsWritable := List.forall_mem_singleton.2 (hsmall 0 (by decide))
  have hturn : ∀ p ∈ zeroTurn, p.year.natAbs ≤ 12 ∧ p.period.natAbs ≤ 12 := by
    simp [zeroTurn]
  have hwindow : (Selector.window w).IsWritable := by
    intro n hn
    obtain ⟨p, hp, hn⟩ := List.mem_flatMap.1 hn
    obtain ⟨hy, hperiod⟩ := hturn p (YearPeriod.mem_sorted.1 (hperiods ▸ hp))
    rcases List.mem_pair.1 hn with rfl | rfl
    · exact hsmall _ hy
    · exact hsmall _ hperiod
  have hk : make "drawer" (.year 0) (some (.window w)) = .ok _ :=
    make_eq_ok_iff.2 ⟨hyear, fun s hs => by cases hs; exact hwindow, rfl⟩
  refine ⟨w, v, _, hw, hv, hk, ?_, fun h => ?_⟩
  · exact ((make_eq_iff hbase hcomparison).2.1 _ hk).2
      ⟨rfl, ⟨trivial, rfl⟩, .some ⟨trivial, hsame⟩⟩
  · exact (((make_eq_iff hbase hcomparison).2.1 _ hk).1 h).2.1.1

end CacheKey

theorem Selector.key_year_pow {k : Nat} (hk : Numeral.digitLimit ≤ k) :
    (year (10 ^ k)).key = .error .unwritable := by
  refine key_eq_error_iff.2 ⟨fun h => ?_, rfl⟩
  have hfar : (10 ^ k : Int).natAbs < tenTo Numeral.digitLimit := h (10 ^ k) List.mem_cons_self
  have hpow : (10 ^ k : Int).natAbs = tenTo k := Int.natAbs_pow 10 k
  rw [hpow] at hfar
  exact Nat.not_lt.2 (tenTo_le_tenTo hk) hfar

theorem Selector.key_farYear_eq_unwritable :
    Built (.year (10 ^ 4300)) (periodsUpTo (10 ^ 4300) 12) ∧
    Agree (.year (10 ^ 4300)) (.year (10 ^ 4300)) ∧
    (Selector.year (10 ^ 4300)).key = .error .unwritable :=
  ⟨.year _, ⟨trivial, rfl⟩, key_year_pow (Nat.le_refl 4300)⟩

end LedgerReport
