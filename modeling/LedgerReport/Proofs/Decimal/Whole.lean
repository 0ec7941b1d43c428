import Mathlib
import LedgerReport.Proofs.Decimal.Distinct
set_option autoImplicit false

namespace LedgerReport.Decimal

section
open Float.Model UnpackedFloat
variable {w w' : UInt64}

theorem toBits_ofBits (h : w.toNat / 2 ^ 52 % 2 ^ 11 ≠ 2047) : (Float.ofBits w).toBits = w := by
  have hpack : (Float.ofBits w).toBits.toBitVec =
      (UnpackedFloat.unpack .binary64 w.toBitVec).pack .binary64 := rfl
  have hexponent : @unpackExponent .binary64 w.toBitVec ≠ -1 := by
    rw [Ne, ← BitVec.toNat_inj, toNat_unpackExponent]
    exact h
  rw [← UInt64.toBitVec_inj, hpack, pack_unpack, if_neg]
  simp only [isNaNBits, decide_eq_true_eq]
  exact fun hn => hexponent hn.1

theorem toNat_unpackSign (b : BitVec 64) :
    (@unpackSign .binary64 b).toNat = b.toNat / 2 ^ 63 % 2 := by
  simp [unpackSign, BitVec.extractLsb, Nat.shiftRight_eq_div_pow]

theorem unpack_of_sign {b b' : BitVec 64} (hlt : b.toNat < 2 ^ 63)
    (hb : b'.toNat = b.toNat + 2 ^ 63) :
    UnpackedFloat.unpack .binary64 b' = (UnpackedFloat.unpack .binary64 b).neg := by
  have hmantissa : @unpackMantissa .binary64 b' = @unpackMantissa .binary64 b := by
    rw [← BitVec.toNat_inj, toNat_unpackMantissa, toNat_unpackMantissa]
    omega
  have hexponent : @unpackExponent .binary64 b' = @unpackExponent .binary64 b := by
    rw [← BitVec.toNat_inj, toNat_unpackExponent, toNat_unpackExponent]
    omega
  have hsign : @unpackSign .binary64 b = 0 := by
    rw [← BitVec.toNat_inj, toNat_unpackSign]
    change b.toNat / 2 ^ 63 % 2 = 0
    omega
  have hsign' : @unpackSign .binary64 b' = 1 := by
    rw [← BitVec.toNat_inj, toNat_unpackSign]
    change b'.toNat / 2 ^ 63 % 2 = 1
    omega
  simp only [UnpackedFloat.unpack, hmantissa, hexponent, hsign, hsign']
  split_ifs <;> rfl

theorem neg_ofBits (h : w.toNat < 2047 * 2 ^ 52) (hw : w'.toNat = w.toNat + 2 ^ 63) :
    -Float.ofBits w = Float.ofBits w' := by
  have hneg : (-Float.ofBits w).toBits.toBitVec =
      (UnpackedFloat.unpack .binary64 (Float.ofBits w).toBits.toBitVec).neg.pack .binary64 := rfl
  have hflip : UnpackedFloat.unpack .binary64 w'.toBitVec =
      (UnpackedFloat.unpack .binary64 w.toBitVec).neg := by
    refine unpack_of_sign ?_ ?_
    · rw [UInt64.toNat_toBitVec]
      omega
    · simpa using hw
  refine toBits_injective ?_
  rw [← UInt64.toBitVec_inj, hneg, toBits_ofBits (by omega), ← hflip]
  rfl

theorem neg_neg_unpacked (x : UnpackedFloat) : x.neg.neg = x := by
  cases x with
  | notANumber => rfl
  | infinity s => cases s <;> rfl
  | zero s => cases s <;> rfl
  | finite s m e hm => cases s <;> rfl

theorem exists_unpack_neg (b : BitVec 64) :
    ∃ b' : BitVec 64,
      UnpackedFloat.unpack .binary64 b' = (UnpackedFloat.unpack .binary64 b).neg := by
  by_cases h : b.toNat < 2 ^ 63
  · refine ⟨BitVec.ofNat 64 (b.toNat + 2 ^ 63), unpack_of_sign h ?_⟩
    rw [BitVec.toNat_ofNat]
    omega
  · have hlow : (BitVec.ofNat 64 (b.toNat - 2 ^ 63)).toNat = b.toNat - 2 ^ 63 := by
      rw [BitVec.toNat_ofNat]
      omega
    have hsign := @unpack_of_sign (BitVec.ofNat 64 (b.toNat - 2 ^ 63)) b (by omega) (by omega)
    refine ⟨BitVec.ofNat 64 (b.toNat - 2 ^ 63), ?_⟩
    rw [hsign, neg_neg_unpacked]

theorem unpack_pack_unpack (b : BitVec 64) : UnpackedFloat.unpack .binary64
    ((UnpackedFloat.unpack .binary64 b).pack .binary64) = UnpackedFloat.unpack .binary64 b := by
  rw [pack_unpack]
  split_ifs with hn
  · obtain ⟨hexponent, hmantissa⟩ := of_decide_eq_true hn
    rw [unpack_packedNaN, UnpackedFloat.unpack]
    simp [hexponent, hmantissa]
  · rfl

theorem neg_neg_float (x : Float) : - -x = x := by
  have hneg : ∀ y : Float, (-y).toBits.toBitVec =
      (UnpackedFloat.unpack .binary64 y.toBits.toBitVec).neg.pack .binary64 := fun _ => rfl
  obtain ⟨b, hb⟩ := exists_unpack_neg x.toBits.toBitVec
  refine toBits_injective (UInt64.toBitVec_inj.1 ?_)
  rw [hneg, hneg, ← hb, unpack_pack_unpack, hb, neg_neg_unpacked]
  exact pack_unpack_of_valid x.toModel.valid

theorem not_isInf_of_isFinite {x : Float} (h : x.isFinite = true) : x.isInf = false := by
  change x.toModel.unpack.isFinite = true at h
  change x.toModel.unpack.isInf = false
  cases hx : x.toModel.unpack <;> simp_all [UnpackedFloat.isFinite, UnpackedFloat.isInf]

theorem not_isNaN_of_isFinite {x : Float} (h : x.isFinite = true) : x.isNaN = false := by
  change x.toModel.unpack.isFinite = true at h
  change x.toModel.unpack.isNaN = false
  cases hx : x.toModel.unpack <;> simp_all [UnpackedFloat.isFinite, UnpackedFloat.isNaN]

end

section
variable {k : Nat}

def significand (k : Nat) : Nat := k * 2 ^ (52 - k.log2)

def word (k : Nat) : Nat := (k.log2 + 1022) * 2 ^ 52 + significand k

theorem log2_le (h : k < 2 ^ 53) : k.log2 ≤ 52 := by
  by_cases hk : k = 0
  · simp [hk]
  · exact Nat.le_of_lt_succ ((Nat.log2_lt hk).2 h)

theorem significand_bounds (hk : 0 < k) (h : k < 2 ^ 53) :
    2 ^ 52 ≤ significand k ∧ significand k < 2 ^ 53 := by
  have hl := log2_le h
  have hpos : 0 < 2 ^ (52 - k.log2) := Nat.two_pow_pos _
  have hlow : 2 ^ k.log2 * 2 ^ (52 - k.log2) = 2 ^ 52 := by rw [← Nat.pow_add]; congr 1; omega
  have hhigh : 2 ^ (k.log2 + 1) * 2 ^ (52 - k.log2) = 2 ^ 53 := by
    rw [← Nat.pow_add]; congr 1; omega
  constructor
  · rw [← hlow]
    exact Nat.mul_le_mul_right _ (Nat.log2_self_le hk.ne')
  · rw [← hhigh]
    exact Nat.mul_lt_mul_of_pos_right Nat.lt_log2_self hpos

theorem binaryScale_whole (hk : 0 < k) (h : k < 2 ^ 53) :
    binaryScale k 1 = (k.log2 : Int) - 52 := by
  have hl := log2_le h
  have hone : Nat.log2 1 = 0 := by decide
  have hplace : (52 : Int) + ((k.log2 : Int) - 0 - 52) = k.log2 := by omega
  have hfits : 1 * twoTo k.log2 ≤ k * twoTo 0 := by
    simpa [twoTo] using Nat.log2_self_le hk.ne'
  simp only [binaryScale, hone, Nat.cast_zero, hplace, Int.toNat_natCast,
    Int.toNat_neg_natCast, hfits, if_true]
  omega

theorem roundToEven_one (n : Nat) : roundToEven n 1 = n := by simp [roundToEven, Nat.mod_one]

theorem toNat_toUInt64 {n : Nat} (h : n < 2 ^ 64) : n.toUInt64.toNat = n :=
  UInt64.toNat_ofNat_of_lt' h

theorem word_lt (hk : 0 < k) (h : k < 2 ^ 53) : word k < 2047 * 2 ^ 52 := by
  have hl := log2_le h
  obtain ⟨-, hhigh⟩ := significand_bounds hk h
  rw [word]
  omega

theorem nearest_whole (hk : 0 < k) (h : k < 2 ^ 53) :
    nearest k 1 = Float.ofBits (word k).toUInt64 := by
  have hl := log2_le h
  have hneg : (-((k.log2 : Int) - 52)).toNat = 52 - k.log2 := by omega
  have hpos : ((k.log2 : Int) - 52).toNat = 0 := by omega
  have hbias : ((k.log2 : Int) - 52 + 1074).toNat = k.log2 + 1022 := by omega
  have hround : roundToEven (k * twoTo (52 - k.log2)) (1 * twoTo 0) = significand k :=
    roundToEven_one _
  have hsmall : ¬ 2047 * twoTo 52 ≤ word k := Nat.not_le.2 (word_lt hk h)
  rw [nearest, if_neg hk.ne']
  simp only [binaryScale_whole hk h, hneg, hpos, hround, ofSignificand, hbias]
  exact if_neg hsmall

theorem ofBits_word {w : UInt64} {negative : Bool} (hk : 0 < k) (h : k < 2 ^ 53)
    (hw : w.toNat = word k + if negative then 2 ^ 63 else 0) :
    Binary.ofBits w = .finite negative (significand k) ((k.log2 : Int) - 52) := by
  have hl := log2_le h
  obtain ⟨hlow, hhigh⟩ := significand_bounds hk h
  rw [word] at hw
  have h11 : twoTo 11 = 2 ^ 11 := rfl
  have h52 : twoTo 52 = 2 ^ 52 := rfl
  have h63 : twoTo 63 = 2 ^ 63 := rfl
  have hsign : w.toNat / 2 ^ 63 = if negative then 1 else 0 := by
    cases negative <;> simp at hw ⊢ <;> omega
  have hexponent : w.toNat / 2 ^ 52 % 2 ^ 11 = k.log2 + 1023 := by
    cases negative <;> simp at hw ⊢ <;> omega
  have hfraction : w.toNat % 2 ^ 52 = significand k - 2 ^ 52 := by
    cases negative <;> simp at hw ⊢ <;> omega
  have hnan : ¬ k.log2 + 1023 = 2047 := by omega
  have hzero : ¬ k.log2 + 1023 = 0 := by omega
  simp only [Binary.ofBits, h11, h52, h63, hsign, hexponent, hfraction, beq_iff_eq, hnan, hzero,
    if_false, Binary.finite.injEq]
  refine ⟨?_, by omega, by omega⟩
  cases negative <;> rfl

theorem truncate?_significand (h : k < 2 ^ 53) (negative : Bool) :
    (Binary.finite negative (significand k) ((k.log2 : Int) - 52)).truncate? =
      some (if negative then -(k : Int) else k) := by
  have hl := log2_le h
  have hneg : (-((k.log2 : Int) - 52)).toNat = 52 - k.log2 := by omega
  have hpos : ((k.log2 : Int) - 52).toNat = 0 := by omega
  have hback : significand k / twoTo (52 - k.log2) = k :=
    Nat.mul_div_cancel k (Nat.two_pow_pos _)
  by_cases he : k.log2 = 52
  · have hsame : significand k = k := by simp [significand, he]
    simp [Binary.truncate?, he, hsame, twoTo]
  · have hlt : ¬ (0 : Int) ≤ (k.log2 : Int) - 52 := by omega
    simp only [Binary.truncate?, if_neg hlt, hneg]
    norm_cast
    rw [hback]

theorem whole?_significand (h : k < 2 ^ 53) (negative : Bool) :
    (Binary.finite negative (significand k) ((k.log2 : Int) - 52)).whole? =
      some (if negative then -(k : Int) else k) := by
  have hneg : (-((k.log2 : Int) - 52)).toNat = 52 - k.log2 := by
    have := log2_le h
    omega
  have hzero : significand k % twoTo (52 - k.log2) = 0 := Nat.mul_mod_left _ _
  rw [Binary.whole?]
  simp only [hneg, hzero, ne_eq, not_true_eq_false, and_false, if_false]
  exact truncate?_significand h negative

theorem signed_whole (hk : 0 < k) (h : k < 2 ^ 53) (negative : Bool) :
    Binary.ofFloat (signed negative (Float.ofBits (word k).toUInt64)) =
      .finite negative (significand k) ((k.log2 : Int) - 52) := by
  have hsmall := word_lt hk h
  have hword : (word k).toUInt64.toNat = word k := toNat_toUInt64 (by omega)
  cases negative with
  | false =>
    rw [signed, if_neg Bool.false_ne_true, Binary.ofFloat, toBits_ofBits (by omega)]
    exact ofBits_word hk h (hword.trans (by simp))
  | true =>
    have hflip : (word k + 2 ^ 63).toUInt64.toNat = word k + 2 ^ 63 := toNat_toUInt64 (by omega)
    have hneg : -Float.ofBits (word k).toUInt64 = Float.ofBits (word k + 2 ^ 63).toUInt64 :=
      neg_ofBits (by omega) (by omega)
    rw [signed, if_pos rfl, hneg, Binary.ofFloat, toBits_ofBits (by omega)]
    exact ofBits_word hk h (hflip.trans (by simp))

end

theorem truncate?_zero (negative : Bool) (q : Int) :
    (Binary.finite negative 0 q).truncate? = some 0 := by simp [Binary.truncate?]

theorem whole?_zero (negative : Bool) (q : Int) :
    (Binary.finite negative 0 q).whole? = some 0 := by
  rw [Binary.whole?, Nat.zero_mod, if_neg (by simp), truncate?_zero]

theorem isFinite_of_ofFloat {x : Float} {negative : Bool} {m : Nat} {q : Int}
    (h : Binary.ofFloat x = .finite negative m q) : x.isFinite = true := by
  rw [isFinite_iff]
  intro he
  simp only [Binary.ofFloat, Binary.ofBits, he, beq_self_eq_true, if_true] at h
  split at h <;> cases h

theorem ofWhole?_exact {n : Int} (h : n.natAbs < 2 ^ 53) : ∃ x, ofWhole? n = some x ∧
    x.isFinite = true ∧ (Binary.ofFloat x).whole? = some n ∧
    (Binary.ofFloat x).truncate? = some n := by
  by_cases hn : n = 0
  · subst hn
    have hzero : Binary.ofFloat 0.0 = .finite false 0 (-1074) := by decide +kernel
    have hinf : (0.0 : Float).isInf = false := by decide
    refine ⟨0.0, ?_, isFinite_of_ofFloat hzero, ?_, ?_⟩
    · simp [ofWhole?, nearest, signed, hinf]
    · rw [hzero]
      exact whole?_zero false _
    · rw [hzero]
      exact truncate?_zero false _
  · have hk : 0 < n.natAbs := Int.natAbs_pos.2 hn
    have hvalue (negative : Bool) := signed_whole hk h negative
    have hinf := not_isInf_of_isFinite (isFinite_of_ofFloat (hvalue false))
    have hsign : (if n < 0 then -(n.natAbs : Int) else n.natAbs) = n := by omega
    refine ⟨signed (n < 0) (nearest n.natAbs 1), ?_, ?_⟩
    · rw [ofWhole?, nearest_whole hk h]
      exact if_neg (by simpa [signed] using hinf)
    · rw [nearest_whole hk h, hvalue, whole?_significand h, truncate?_significand h]
      simp only [decide_eq_true_eq, hsign, and_self, and_true]
      exact isFinite_of_ofFloat (hvalue (n < 0))

end LedgerReport.Decimal
