import LedgerReport.Decimal.Fixed
import Mathlib.Algebra.Order.Floor.Ring
import Mathlib.Data.Rat.Floor
import Mathlib.Tactic.FieldSimp
import Mathlib.Tactic.Linarith
import Mathlib.Tactic.NormNum
import Mathlib.Tactic.Positivity
set_option autoImplicit false

namespace LedgerReport.Decimal

def Scaled.value (d : Scaled) : ℚ := d.digits * 10 ^ d.exponent

theorem tenTo_pos (n : Nat) : 0 < tenTo n := Nat.pow_pos (by omega)

theorem lt_tenTo (n : Nat) : n < tenTo n := Nat.lt_pow_self (by omega)

theorem tenTo_le_tenTo {m n : Nat} (h : m ≤ n) : tenTo m ≤ tenTo n :=
  Nat.pow_le_pow_right (by omega) h

theorem cast_tenTo (n : Nat) : (tenTo n : ℚ) = 10 ^ n := by simp [tenTo]

theorem roundHalfUp_eq_floor {num den : Nat} (hd : 0 < den) :
    (roundHalfUp num den : ℤ) = ⌊(num : ℚ) / den + 1 / 2⌋ := by
  have hq : (num : ℚ) / den + 1 / 2 = ((2 * num + den : ℕ) : ℚ) / ((2 * den : ℕ) : ℚ) := by
    have hne : (den : ℚ) ≠ 0 := by positivity
    push_cast
    field_simp
  rw [hq, Rat.floor_natCast_div_natCast, roundHalfUp, Int.natCast_ediv]

theorem tenTo_div_tenTo (e : Int) : (tenTo e.toNat : ℚ) / tenTo (-e).toNat = 10 ^ e := by
  rw [cast_tenTo, cast_tenTo]
  rcases Int.le_total 0 e with he | he
  · obtain ⟨n, rfl⟩ := Int.eq_ofNat_of_zero_le he
    simp
  · obtain ⟨n, hn⟩ := Int.eq_ofNat_of_zero_le (Int.neg_nonneg_of_nonpos he)
    obtain rfl : e = -(n : Int) := by omega
    simp [zpow_neg]

theorem Scaled.units_eq_floor (d : Scaled) (places : Int) :
    (d.units places : ℤ) = ⌊d.value * 10 ^ places + 1 / 2⌋ := by
  unfold units
  rw [roundHalfUp_eq_floor (tenTo_pos _)]
  have hq : ((d.digits * tenTo (d.exponent + places).toNat : ℕ) : ℚ) /
      tenTo (-(d.exponent + places)).toNat = d.value * 10 ^ places := by
    push_cast
    rw [mul_div_assoc, tenTo_div_tenTo, zpow_add₀ (by norm_num), value, mul_assoc]
  rw [hq]

/-- Whether a quantity has a text with `places` decimal places: its value, rounded half up to units
of the last place, has at most 28 digits. -/
def Quantity.Fits (places : Int) : Quantity → Prop
  | .finite _ d => ⌊d.value * 10 ^ places + 1 / 2⌋ < 10 ^ 28
  | .infinite _ => False
  | .notANumber _ signalling _ => signalling = false

theorem units_lt_iff (negative : Bool) {d : Scaled} {places : Int} :
    d.units places < tenTo 28 ↔ (Quantity.finite negative d).Fits places := by
  change _ ↔ ⌊d.value * 10 ^ places + 1 / 2⌋ < 10 ^ 28
  rw [← Scaled.units_eq_floor]
  have ht : ((tenTo 28 : ℕ) : ℤ) = 10 ^ 28 := by simp [tenTo]
  omega

section
variable {places : Int} (thousands : Bool) {q : Quantity}

theorem fixed_ok (hr : UnitInRange places) (h0 : 0 ≤ places) (h : q.Fits places) :
    ∃ cs, fixed places thousands q = .ok cs := by
  have hn : ¬ places < 0 := by omega
  unfold fixed
  rw [if_pos hr]
  cases q with
  | finite negative d =>
    have hu : ¬ tenTo 28 ≤ d.units places := Nat.not_le.2 ((units_lt_iff negative).2 h)
    simp only [fixedInRange, if_neg hu, if_neg hn]
    exact ⟨_, rfl⟩
  | infinite negative => cases h
  | notANumber negative signalling payload =>
    cases h
    simp only [fixedInRange, if_neg hn]
    exact ⟨_, rfl⟩

theorem fixed_error (hr : UnitInRange places) (h : ¬ q.Fits places) :
    fixed places thousands q = .error .outOfRange := by
  unfold fixed
  rw [if_pos hr]
  cases q with
  | finite negative d =>
    have hu : tenTo 28 ≤ d.units places := Nat.not_lt.1 fun hlt => h ((units_lt_iff negative).1 hlt)
    simp only [fixedInRange, if_pos hu]
  | infinite negative => rfl
  | notANumber negative signalling payload =>
    cases signalling with
    | false => exact absurd rfl h
    | true => rfl

end

end LedgerReport.Decimal
