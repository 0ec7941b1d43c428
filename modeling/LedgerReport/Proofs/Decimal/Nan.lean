import Mathlib
import LedgerReport.Proofs.Decimal.Whole
set_option autoImplicit false

namespace LedgerReport

namespace Decimal

def IsMagnitude (x : Float) : Prop := ∃ w : UInt64, w.toNat ≤ 2047 * 2 ^ 52 ∧ x = Float.ofBits w

theorem isMagnitude_zero : IsMagnitude 0.0 := ⟨0, by decide, by decide +kernel⟩

theorem isMagnitude_infinity : IsMagnitude (1.0 / 0.0) :=
  ⟨0x7FF0000000000000, by decide, by decide +kernel⟩

theorem isMagnitude_ofSignificand (m : Nat) (e : Int) : IsMagnitude (ofSignificand m e) := by
  have h52 : twoTo 52 = 2 ^ 52 := rfl
  unfold ofSignificand
  dsimp only
  split
  next => exact ⟨_, by decide, rfl⟩
  next h =>
    refine ⟨_, ?_, rfl⟩
    rw [toNat_toUInt64 (by omega)]
    omega

theorem isMagnitude_nearest (num den : Nat) : IsMagnitude (nearest num den) := by
  unfold nearest
  split
  · exact isMagnitude_zero
  · exact isMagnitude_ofSignificand _ _

theorem isFinite_ofBits {w : UInt64} (h : w.toNat / 2 ^ 52 % 2 ^ 11 ≠ 2047) :
    (Float.ofBits w).isFinite = true := by
  rw [isFinite_iff, toBits_ofBits h]
  exact h

theorem not_isNaN_signed {x : Float} (h : IsMagnitude x) (negative : Bool) :
    (signed negative x).isNaN = false := by
  obtain ⟨w, hw, rfl⟩ := h
  obtain hw | hw := hw.lt_or_eq
  · refine not_isNaN_of_isFinite ?_
    cases negative with
    | false => exact isFinite_ofBits (by omega)
    | true =>
      have hflip : (w.toNat + 2 ^ 63).toUInt64.toNat = w.toNat + 2 ^ 63 := toNat_toUInt64 (by omega)
      rw [signed, if_pos rfl, neg_ofBits hw hflip]
      exact isFinite_ofBits (by omega)
  · obtain rfl : w = 0x7FF0000000000000 := UInt64.toNat_inj.1 hw
    cases negative <;> decide +kernel

end Decimal

namespace Numeral
open Decimal Text

theorem isMagnitude_nearestDecimal (n : Nat) (e : Int) : IsMagnitude (nearestDecimal n e) := by
  unfold nearestDecimal
  dsimp only
  split_ifs
  · exact isMagnitude_zero
  · exact isMagnitude_infinity
  · exact isMagnitude_zero
  · exact isMagnitude_nearest _ _

/-- A text says that there is no number: in any case, with padding around it and maybe a sign. -/
def SaysNan (s : String) : Prop :=
  (splitSign (unpadded s.toList)).2.map Char.toLower = "nan".toList

instance (s : String) : Decidable (SaysNan s) :=
  inferInstanceAs (Decidable (List.map Char.toLower _ = _))

/-- Only a text that says so is read as a value that is not a number. -/
theorem readReal?_isNaN_iff {s : String} {x : Float} (h : readReal? s = some x) :
    x.isNaN = true ↔ SaysNan s := by
  unfold SaysNan
  unfold readReal? at h
  generalize splitSign (unpadded s.toList) = p at h ⊢
  obtain ⟨y, hy, rfl⟩ := Option.map_eq_some_iff.1 h
  have hnumber : IsMagnitude y → ¬ (signed p.1 y).isNaN = true := fun hm =>
    Bool.eq_false_iff.1 (not_isNaN_signed hm p.1)
  by_cases hinf : p.2.map Char.toLower = "inf".toList ∨ p.2.map Char.toLower = "infinity".toList
  · have hword : readWord? p.2 = some (1.0 / 0.0) := if_pos hinf
    rw [hword, Option.some_or, Option.some.injEq] at hy
    subst hy
    refine iff_of_false (hnumber isMagnitude_infinity) fun hnan => ?_
    rw [hnan] at hinf
    exact absurd hinf (by decide)
  by_cases hnan : p.2.map Char.toLower = "nan".toList
  · have hword : readWord? p.2 = some (0.0 / 0.0) := (if_neg hinf).trans (if_pos hnan)
    rw [hword, Option.some_or, Option.some.injEq] at hy
    subst hy
    refine iff_of_true ?_ hnan
    cases p.1 <;> decide +kernel
  · have hword : readWord? p.2 = none := (if_neg hinf).trans (if_neg hnan)
    rw [hword, Option.none_or] at hy
    obtain ⟨q, -, rfl⟩ := Option.map_eq_some_iff.1 hy
    exact iff_of_false (hnumber (isMagnitude_nearestDecimal q.1 q.2)) hnan

example : SaysNan " -NaN" := by decide

end Numeral
end LedgerReport
