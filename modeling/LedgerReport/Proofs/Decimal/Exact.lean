import LedgerReport.Proofs.Decimal.Whole
set_option autoImplicit false

namespace LedgerReport.Decimal

def IsExact (n : Nat) : Prop := ∃ m q : Nat, m < 2 ^ 53 ∧ q ≤ 971 ∧ n = m * 2 ^ q

theorem isExact_of_lt {n : Nat} (h : n < 2 ^ 53) : IsExact n := ⟨n, 0, h, by omega, by simp⟩

theorem natAbs_of_truncate? {negative : Bool} {m : Nat} {q n : Int}
    (h : (Binary.finite negative m q).truncate? = some n) :
    n.natAbs = if 0 ≤ q then m * 2 ^ q.toNat else m / 2 ^ (-q).toNat := by
  have hcast : (if 0 ≤ q then (m : Int) * twoTo q.toNat else m / twoTo (-q).toNat) =
      ((if 0 ≤ q then m * 2 ^ q.toNat else m / 2 ^ (-q).toNat : ℕ) : Int) := by
    unfold twoTo
    split_ifs <;> norm_cast
  simp only [Binary.truncate?, hcast, Option.some.injEq] at h
  rw [← h]
  cases negative
  · exact Int.natAbs_natCast _
  · exact (Int.natAbs_neg _).trans (Int.natAbs_natCast _)

theorem isExact_of_whole? {x : Float} {n : Int}
    (h : (Binary.ofFloat x).whole? = some n) : IsExact n.natAbs := by
  cases hx : Binary.ofFloat x with
  | nan | infinite =>
    rw [hx] at h
    cases h
  | finite negative m q =>
    obtain ⟨negative', m', q', hx', hm, -, hq⟩ := ofFloat_of_isFinite (isFinite_of_ofFloat hx)
    cases hx.symm.trans hx'
    rw [hx, Binary.whole?] at h
    have hn := natAbs_of_truncate? (Option.ite_none_left_eq_some.1 h).2
    rw [hn]
    split_ifs with h0
    · exact ⟨m, q.toNat, hm, by omega, rfl⟩
    · have hle : m / 2 ^ (-q).toNat ≤ m := Nat.div_le_self _ _
      exact isExact_of_lt (by omega)

section
variable {n : Nat}

def excess (n : Nat) : Nat := n.log2 - 52

theorem binaryScale_excess (h : 2 ^ 53 ≤ n) : binaryScale n 1 = excess n := by
  have hl : 53 ≤ n.log2 := (Nat.le_log2 (by omega)).2 h
  have hone : Nat.log2 1 = 0 := by decide
  have hplace : (52 : Int) + ((n.log2 : Int) - 0 - 52) = n.log2 := by omega
  have hfits : 1 * twoTo n.log2 ≤ n * twoTo 0 := by
    simpa [twoTo] using Nat.log2_self_le (show n ≠ 0 by omega)
  simp only [binaryScale, hone, Nat.cast_zero, hplace, Int.toNat_natCast,
    Int.toNat_neg_natCast, hfits, if_true, excess]
  omega

/-- A large whole number that is a value is a significand of 53 bits times a power of two. -/
theorem exists_significand (h : 2 ^ 53 ≤ n) (he : IsExact n) : ∃ s, n = s * 2 ^ excess n ∧
    2 ^ 52 ≤ s ∧ s < 2 ^ 53 ∧ excess n ≤ 971 := by
  obtain ⟨m, q, hm, hq, hn⟩ := he
  have hne : n ≠ 0 := by omega
  have hl : 53 ≤ n.log2 := (Nat.le_log2 hne).2 h
  have hlog : n.log2 < 53 + q := by
    rw [Nat.log2_lt hne, hn, Nat.pow_add]
    exact Nat.mul_lt_mul_of_pos_right hm (Nat.two_pow_pos q)
  have hexcess : excess n ≤ q := by
    unfold excess
    omega
  have hs : n = m * 2 ^ (q - excess n) * 2 ^ excess n := by
    rw [Nat.mul_assoc, ← Nat.pow_add, Nat.sub_add_cancel hexcess]
    exact hn
  have hpos := Nat.two_pow_pos (excess n)
  have hlow : 2 ^ n.log2 = 2 ^ 52 * 2 ^ excess n := by
    rw [← Nat.pow_add]
    congr 1
    unfold excess
    omega
  refine ⟨_, hs, ?_, ?_, by omega⟩
  · refine Nat.le_of_mul_le_mul_right ?_ hpos
    rw [← hs, ← hlow]
    exact Nat.log2_self_le hne
  · refine Nat.lt_of_mul_lt_mul_right (a := 2 ^ excess n) ?_
    rw [← hs, Nat.pow_succ, Nat.mul_right_comm, ← hlow, ← Nat.pow_succ]
    exact Nat.lt_log2_self

theorem roundToEven_of_mul (s : Nat) {d : Nat} (hd : 0 < d) : roundToEven (s * d) d = s := by
  simp [roundToEven, hd]

theorem ofFloat_ofSignificand {s t : Nat} (hlow : 2 ^ 52 ≤ s) (hhigh : s < 2 ^ 53)
    (ht : t ≤ 971) : Binary.ofFloat (ofSignificand s t) = .finite false s t := by
  have h11 : twoTo 11 = 2 ^ 11 := rfl
  have h52 : twoTo 52 = 2 ^ 52 := rfl
  have h63 : twoTo 63 = 2 ^ 63 := rfl
  have hbias : ((t : Int) + 1074).toNat = t + 1074 := by omega
  have hsmall : ¬ 2047 * 2 ^ 52 ≤ (t + 1074) * 2 ^ 52 + s := by omega
  have hword : ((t + 1074) * 2 ^ 52 + s).toUInt64.toNat = (t + 1074) * 2 ^ 52 + s :=
    toNat_toUInt64 (by omega)
  have hexponent : ((t + 1074) * 2 ^ 52 + s) / 2 ^ 52 % 2 ^ 11 = t + 1075 := by omega
  have hfraction : ((t + 1074) * 2 ^ 52 + s) % 2 ^ 52 = s - 2 ^ 52 := by omega
  have hsign : ((t + 1074) * 2 ^ 52 + s) / 2 ^ 63 = 0 := by omega
  have hnan : ¬ t + 1075 = 2047 := by omega
  have hzero : ¬ t + 1075 = 0 := by omega
  simp only [ofSignificand, hbias, h52, if_neg hsmall]
  rw [Binary.ofFloat, toBits_ofBits (by rw [hword, hexponent]; exact hnan)]
  simp only [Binary.ofBits, hword, h11, h52, h63, hexponent, hfraction, hsign, beq_iff_eq, hnan,
    hzero, if_false, Binary.finite.injEq]
  exact ⟨rfl, by omega, by omega⟩

end

theorem whole?_nearest {n : Nat} (h : IsExact n) :
    (Binary.ofFloat (nearest n 1)).whole? = some (n : Int) := by
  rcases Nat.lt_or_ge n (2 ^ 53) with hlt | hge
  · obtain ⟨x, hx, -, hwhole, -⟩ := ofWhole?_exact (n := (n : Int)) (by simpa using hlt)
    have hpositive : ¬ (n : Int) < 0 := by omega
    obtain ⟨-, hnearest⟩ := Option.ite_none_left_eq_some.1 hx
    rw [Int.natAbs_natCast, decide_eq_false hpositive, Option.some.injEq, signed,
      if_neg Bool.false_ne_true] at hnearest
    rw [hnearest, hwhole]
  · obtain ⟨s, hs, hlow, hhigh, ht⟩ := exists_significand hge h
    have hscaled : n * twoTo 0 = s * twoTo (excess n) := by
      have hone : twoTo 0 = 1 := rfl
      rw [hone, Nat.mul_one]
      exact hs
    have hround : roundToEven (n * twoTo (-(excess n : Int)).toNat)
        (1 * twoTo (excess n : Int).toNat) = s := by
      rw [Int.toNat_neg_natCast, Int.toNat_natCast, Nat.one_mul, hscaled]
      exact roundToEven_of_mul s (twoTo_pos _)
    have hback : (s : Int) * twoTo (excess n : Int).toNat = n := by
      rw [Int.toNat_natCast]
      exact_mod_cast hs.symm
    rw [nearest, if_neg (by omega), binaryScale_excess hge]
    dsimp only
    rw [hround, ofFloat_ofSignificand hlow hhigh ht, Binary.whole?, if_neg (by omega)]
    simp only [Binary.truncate?, Int.natCast_nonneg, if_true, hback]
    rfl

end LedgerReport.Decimal
