import LedgerReport.Proofs.Decimal.Reading
import LedgerReport.Proofs.Period.Key
/-!
Different numbers have different texts.

The decimal that is written for a floating-point value lies among the numbers that round to it
(`rounds_shortest`), and no number rounds to two values (`Rounds.unique`). So the text of a value,
which is read as that decimal, belongs to no other value. A whole number is written without the
point, the exponent or the letters that every floating-point value has.
-/

set_option autoImplicit false

namespace LedgerReport.Decimal

theorem twoTo_pos (n : Nat) : 0 < twoTo n := Nat.pow_pos (by omega)

theorem cast_twoTo (n : Nat) : (twoTo n : ℚ) = 2 ^ n := by simp [twoTo]

theorem tenTo_toNat (e : Int) : (tenTo e.toNat : ℚ) = 10 ^ e * tenTo (-e).toNat := by
  have hne : (tenTo (-e).toNat : ℚ) ≠ 0 := Nat.cast_ne_zero.2 (tenTo_pos _).ne'
  rw [← tenTo_div_tenTo, div_mul_cancel₀ _ hne]

theorem twoTo_toNat (e : Int) : (twoTo e.toNat : ℚ) = 2 ^ e * twoTo (-e).toNat := by
  rw [cast_twoTo, cast_twoTo, ← zpow_natCast, ← zpow_natCast, ← zpow_add₀ (by norm_num)]
  congr 1
  omega

section
variable {a n : Nat} {i j : Int}

/-- Both sides of a comparison are its decimal and its binary value, in units of one size. -/
theorem compareScaled_units : ∃ unit : ℚ, 0 < unit ∧
    ((a * tenTo i.toNat * twoTo (-j).toNat : ℕ) : ℚ) = a * 10 ^ i * unit ∧
    ((n * twoTo j.toNat * tenTo (-i).toNat : ℕ) : ℚ) = n * 2 ^ j * unit := by
  have hten : (0 : ℚ) < tenTo (-i).toNat := Nat.cast_pos.2 (tenTo_pos _)
  have htwo : (0 : ℚ) < twoTo (-j).toNat := Nat.cast_pos.2 (twoTo_pos _)
  refine ⟨tenTo (-i).toNat * twoTo (-j).toNat, mul_pos hten htwo, ?_, ?_⟩
  · push_cast
    rw [tenTo_toNat]
    ring
  · push_cast
    rw [twoTo_toNat]
    ring

theorem compareScaled_eq_lt_iff :
    compareScaled a i n j = .lt ↔ (a : ℚ) * 10 ^ i < n * 2 ^ j := by
  obtain ⟨unit, hu, ha, hn⟩ := compareScaled_units (a := a) (n := n) (i := i) (j := j)
  rw [compareScaled, Nat.compare_eq_lt, ← @Nat.cast_lt ℚ, ha, hn, mul_lt_mul_iff_left₀ hu]

theorem compareScaled_eq_gt_iff :
    compareScaled a i n j = .gt ↔ (n : ℚ) * 2 ^ j < a * 10 ^ i := by
  obtain ⟨unit, hu, ha, hn⟩ := compareScaled_units (a := a) (n := n) (i := i) (j := j)
  rw [compareScaled, Nat.compare_eq_gt, ← @Nat.cast_lt ℚ, ha, hn, mul_lt_mul_iff_left₀ hu]

theorem compareScaled_eq_eq_iff :
    compareScaled a i n j = .eq ↔ (a : ℚ) * 10 ^ i = n * 2 ^ j := by
  obtain ⟨unit, hu, ha, hn⟩ := compareScaled_units (a := a) (n := n) (i := i) (j := j)
  rw [compareScaled, Nat.compare_eq_eq, ← Nat.cast_inj (R := ℚ), ha, hn,
    mul_left_inj' hu.ne']

end

def lowEnd (m : Nat) (q : Int) : Nat := if m = twoTo 52 ∧ -1074 < q then 4 * m - 1 else 4 * m - 2

/-- Whether a number rounds to `m * 2^q`. Half way between two values it rounds to the even one. -/
structure Rounds (m : Nat) (q : Int) (v : ℚ) : Prop where
  low : (lowEnd m q : ℚ) * 2 ^ (q - 2) ≤ v
  high : v ≤ ((4 * m + 2 : ℕ) : ℚ) * 2 ^ (q - 2)
  strict : m % 2 = 1 → (lowEnd m q : ℚ) * 2 ^ (q - 2) < v ∧ v < ((4 * m + 2 : ℕ) : ℚ) * 2 ^ (q - 2)

theorem rounds_of_readsBack {m : Nat} {q : Int} {d : Scaled} (h : readsBack m q d = true) :
    Rounds m q d.value := by
  simp only [readsBack, Bool.and_eq_true, Bool.or_eq_true, beq_iff_eq, compareScaled_eq_gt_iff,
    compareScaled_eq_lt_iff, compareScaled_eq_eq_iff] at h
  obtain ⟨hlow, hhigh⟩ := h
  refine ⟨?_, ?_, fun hodd => ⟨?_, ?_⟩⟩
  · rcases hlow with hlow | ⟨-, hlow⟩
    · exact hlow.le
    · exact hlow.ge
  · rcases hhigh with hhigh | ⟨-, hhigh⟩
    · exact hhigh.le
    · exact hhigh.le
  · rcases hlow with hlow | ⟨heven, -⟩
    · exact hlow
    · omega
  · rcases hhigh with hhigh | ⟨heven, -⟩
    · exact hhigh
    · omega

theorem rounds_self {m : Nat} (hm : 0 < m) (q : Int) : Rounds m q (m * 2 ^ q) := by
  have hunit : (0 : ℚ) < 2 ^ (q - 2) := zpow_pos (by norm_num) _
  have hq : (m : ℚ) * 2 ^ q = ((4 * m : ℕ) : ℚ) * 2 ^ (q - 2) := by
    rw [zpow_sub₀ (by norm_num)]
    push_cast
    ring
  have hlow : lowEnd m q < 4 * m := by
    unfold lowEnd
    split_ifs <;> omega
  have hleft : (lowEnd m q : ℚ) * 2 ^ (q - 2) < m * 2 ^ q := by
    rw [hq, mul_lt_mul_iff_left₀ hunit]
    exact Nat.cast_lt.2 hlow
  have hright : (m : ℚ) * 2 ^ q < ((4 * m + 2 : ℕ) : ℚ) * 2 ^ (q - 2) := by
    rw [hq, mul_lt_mul_iff_left₀ hunit]
    exact Nat.cast_lt.2 (by omega)
  exact ⟨hleft.le, hright.le, fun _ => ⟨hleft, hright⟩⟩

theorem dropZeros_value (fuel : Nat) (d : Scaled) : (dropZeros fuel d).value = d.value := by
  induction fuel generalizing d with
  | zero => rfl
  | succ fuel ih =>
    rw [dropZeros]
    split_ifs with hd
    · have hdigits : d.digits = d.digits / 10 * 10 := by omega
      rw [ih, Scaled.value, Scaled.value, zpow_add₀ (by norm_num)]
      conv_rhs => rw [hdigits]
      push_cast
      ring
    · rfl

theorem withDigits?_readsBack {m n : Nat} {q k : Int} {d : Scaled}
    (h : withDigits? m q k n = some d) : readsBack m q d = true := by
  unfold withDigits? at h
  dsimp only at h
  split at h
  · rename_i hbelow habove
    split_ifs at h <;> cases h <;> assumption
  · rename_i hbelow _
    cases h
    exact hbelow
  · rename_i _ habove
    cases h
    exact habove
  · cases h

/-- The digits that are written when none of up to seventeen read back are all there are. -/
theorem exact_value (m : Nat) (q : Int) :
    Scaled.value ⟨m * twoTo q.toNat * fiveTo (-q).toNat, min 0 q⟩ = m * 2 ^ q := by
  unfold Scaled.value fiveTo twoTo
  rcases Int.le_total 0 q with hq | hq
  · obtain ⟨n, rfl⟩ := Int.eq_ofNat_of_zero_le hq
    simp
  · obtain ⟨n, hn⟩ := Int.eq_ofNat_of_zero_le (Int.neg_nonneg_of_nonpos hq)
    obtain rfl : q = -(n : Int) := by omega
    have hten : (10 : ℚ) ^ n = 2 ^ n * 5 ^ n := by rw [← mul_pow]; norm_num
    simp [hten]
    field_simp

theorem rounds_shortest {m : Nat} (hm : 0 < m) (q : Int) : Rounds m q (shortest m q).value := by
  unfold shortest
  dsimp only
  rw [dropZeros_value]
  cases hf : (List.range 17).findSome? fun i => withDigits? m q (decimalPlace m q) (i + 1) with
  | none =>
    rw [Option.getD_none, exact_value]
    exact rounds_self hm q
  | some d =>
    obtain ⟨i, -, hi⟩ := List.exists_of_findSome?_eq_some hf
    exact rounds_of_readsBack (withDigits?_readsBack hi)

/-- Whether `m * 2^q` is a positive value in its only form: 53 bits, or fewer near zero. -/
structure Canonical (m : Nat) (q : Int) : Prop where
  pos : 0 < m
  lt : m < 2 ^ 53
  least : -1074 ≤ q
  full : 2 ^ 52 ≤ m ∨ q = -1074

section
variable {m m' : Nat} {q q' : Int} {v : ℚ}

theorem Canonical.ends_le {t : Nat} (h : Canonical m q) (h' : Canonical m' (q + t))
    (hlt : 0 < t ∨ m < m') : 4 * m + 2 ≤ 2 ^ t * lowEnd m' (q + t) ∧
      (m % 2 = 0 → m' % 2 = 0 → 4 * m + 2 < 2 ^ t * lowEnd m' (q + t)) := by
  have hlow : 4 * m' - 2 ≤ lowEnd m' (q + t) := by
    unfold lowEnd
    split_ifs <;> omega
  have hpos := h.pos
  have hbits := h.lt
  cases t with
  | zero =>
    have hm : m < m' := hlt.resolve_left (Nat.lt_irrefl 0)
    rw [Nat.pow_zero, Nat.one_mul]
    omega
  | succ t =>
    have hleast := h.least
    have hfull : 2 ^ 52 ≤ m' := h'.full.resolve_right (by omega)
    have hlow : 2 ^ 54 - 1 ≤ lowEnd m' (q + (t + 1 : ℕ)) := by
      unfold lowEnd twoTo
      split_ifs with hm
      · omega
      · have hne : m' ≠ Nat.pow 2 52 := fun he => hm ⟨he, by omega⟩
        have htwo : Nat.pow 2 52 = 2 ^ 52 := rfl
        omega
    have htwice : 2 * lowEnd m' (q + (t + 1 : ℕ)) ≤ 2 ^ (t + 1) * lowEnd m' (q + (t + 1 : ℕ)) := by
      refine Nat.mul_le_mul_right _ ?_
      rw [Nat.pow_succ]
      have := Nat.pow_pos (n := t) (show 0 < 2 by omega)
      omega
    omega

theorem Rounds.not_lt {t : Nat} (hr : Rounds m q v) (hr' : Rounds m' (q + t) v)
    (h : Canonical m q) (h' : Canonical m' (q + t)) : ¬ (0 < t ∨ m < m') := by
  intro hlt
  have hunit : (0 : ℚ) < 2 ^ (q - 2) := zpow_pos (by norm_num) _
  have hscale : (lowEnd m' (q + t) : ℚ) * 2 ^ (q + t - 2) =
      ((2 ^ t * lowEnd m' (q + t) : ℕ) : ℚ) * 2 ^ (q - 2) := by
    have he : q + t - 2 = t + (q - 2) := by omega
    rw [he, zpow_add₀ (by norm_num), zpow_natCast]
    push_cast
    ring
  obtain ⟨hle, heven⟩ := h.ends_le h' hlt
  have hends : ((4 * m + 2 : ℕ) : ℚ) * 2 ^ (q - 2) ≤
      (lowEnd m' (q + t) : ℚ) * 2 ^ (q + t - 2) := by
    rw [hscale, mul_le_mul_iff_left₀ hunit]
    exact Nat.cast_le.2 hle
  rcases Nat.mod_two_eq_zero_or_one m with hm | hm
  · rcases Nat.mod_two_eq_zero_or_one m' with hm' | hm'
    · have hgap : ((4 * m + 2 : ℕ) : ℚ) * 2 ^ (q - 2) <
          (lowEnd m' (q + t) : ℚ) * 2 ^ (q + t - 2) := by
        rw [hscale, mul_lt_mul_iff_left₀ hunit]
        exact Nat.cast_lt.2 (heven hm hm')
      exact absurd (hr.high.trans_lt hgap) hr'.low.not_gt
    · exact absurd (hr.high.trans hends) (hr'.strict hm').1.not_ge
  · exact absurd ((hr.strict hm).2.trans_le hends) hr'.low.not_gt

theorem Rounds.unique (hr : Rounds m q v) (hr' : Rounds m' q' v) (h : Canonical m q)
    (h' : Canonical m' q') : m = m' ∧ q = q' := by
  rcases Int.le_total q q' with hq | hq
  · obtain ⟨t, rfl⟩ := Int.le.dest hq
    have hlt := hr.not_lt hr' h h'
    obtain rfl : t = 0 := by omega
    rw [Int.natCast_zero, Int.add_zero] at hr' h'
    have hgt := Rounds.not_lt (t := 0) (by simpa using hr') (by simpa using hr) (by simpa using h')
      (by simpa using h)
    omega
  · obtain ⟨t, rfl⟩ := Int.le.dest hq
    have hlt := hr'.not_lt hr h' h
    obtain rfl : t = 0 := by omega
    rw [Int.natCast_zero, Int.add_zero] at hr h
    have hgt := Rounds.not_lt (t := 0) (by simpa using hr) (by simpa using hr') (by simpa using h)
      (by simpa using h')
    omega

end

theorem shortest_value_pos {m : Nat} {q : Int} (h : Canonical m q) : 0 < (shortest m q).value := by
  have hlow : 0 < lowEnd m q := by
    have := h.pos
    unfold lowEnd
    split_ifs <;> omega
  refine lt_of_lt_of_le ?_ (rounds_shortest h.pos q).low
  exact mul_pos (Nat.cast_pos.2 hlow) (zpow_pos (by norm_num) _)

def written (m : Nat) (q : Int) : Scaled := if m = 0 then ⟨0, 0⟩ else shortest m q

theorem chars_finite (negative : Bool) (m : Nat) (q : Int) :
    (Binary.finite negative m q).chars =
      (if negative then ['-'] else []) ++ (written m q).chars := by
  rw [Binary.chars, written]
  split_ifs <;> rfl

theorem numerals_finite (negative : Bool) (m : Nat) (q : Int) :
    Numerals (Binary.finite negative m q).chars := by
  rw [chars_finite]
  exact numerals_signed (numerals_chars _) negative

theorem chars_finite_ne {negative : Bool} {m : Nat} {q : Int} {cs : List Char} (h : 'n' ∈ cs) :
    (Binary.finite negative m q).chars ≠ cs := by
  intro hcs
  have hn : InNumeral 'n' := numerals_finite negative m q 'n' (hcs ▸ h)
  unfold InNumeral at hn
  exact absurd hn (by decide)

theorem value_eq_of_chars {d d' : Scaled} (h : d.chars = d'.chars) : d.value = d'.value := by
  obtain ⟨n, e, hread, hvalue, -⟩ := readDecimal?_chars d
  obtain ⟨n', e', hread', hvalue', -⟩ := readDecimal?_chars d'
  rw [h, hread', Option.some.injEq, Prod.mk.injEq] at hread
  rw [← hvalue, ← hvalue', hread.1, hread.2]

theorem signed_chars_inj {negative negative' : Bool} {d d' : Scaled}
    (h : (if negative then ['-'] else []) ++ d.chars =
      (if negative' then ['-'] else []) ++ d'.chars) :
    negative = negative' ∧ d.chars = d'.chars := by
  obtain ⟨c, r, hd, hc⟩ := chars_head d
  obtain ⟨c', r', hd', hc'⟩ := chars_head d'
  rw [hd, hd'] at h ⊢
  cases negative with
  | false =>
    cases negative' with
    | false => exact ⟨rfl, h⟩
    | true =>
      obtain rfl : c = '-' := (List.cons.inj h).1
      cases hc
  | true =>
    cases negative' with
    | false =>
      obtain rfl : '-' = c' := (List.cons.inj h).1
      cases hc'
    | true => exact ⟨rfl, (List.cons.inj h).2⟩

def Binary.IsCanonical : Binary → Prop
  | .finite _ m q => m = 0 ∧ q = -1074 ∨ Canonical m q
  | _ => True

theorem Binary.chars_inj {a b : Binary} (ha : a.IsCanonical) (hb : b.IsCanonical)
    (h : a.chars = b.chars) : a = b := by
  cases a with
  | nan =>
    cases b with
    | nan => rfl
    | infinite negative => cases negative <;> cases h
    | finite => exact absurd h.symm (chars_finite_ne (by decide))
  | infinite negative =>
    cases b with
    | nan => cases negative <;> cases h
    | infinite negative' => cases negative <;> cases negative' <;> first | rfl | cases h
    | finite => exact absurd h.symm (chars_finite_ne (by cases negative <;> decide))
  | finite negative m q =>
    cases b with
    | nan => exact absurd h (chars_finite_ne (by decide))
    | infinite negative' => exact absurd h (chars_finite_ne (by cases negative' <;> decide))
    | finite negative' m' q' =>
      rw [chars_finite, chars_finite] at h
      obtain ⟨rfl, hchars⟩ := signed_chars_inj h
      have hv := value_eq_of_chars hchars
      have hzero : Scaled.value ⟨0, 0⟩ = 0 := by simp [Scaled.value]
      rcases ha with ⟨rfl, rfl⟩ | ha
      · rcases hb with ⟨rfl, rfl⟩ | hb
        · rfl
        · have hpos := shortest_value_pos hb
          rw [written, if_pos rfl, hzero, written, if_neg hb.pos.ne'] at hv
          exact absurd hv hpos.ne
      · rcases hb with ⟨rfl, rfl⟩ | hb
        · have hpos := shortest_value_pos ha
          rw [written, if_neg ha.pos.ne', written, if_pos rfl, hzero] at hv
          exact absurd hv hpos.ne'
        · have hr := rounds_shortest ha.pos q
          rw [written, if_neg ha.pos.ne', written, if_neg hb.pos.ne'] at hv
          rw [hv] at hr
          obtain ⟨rfl, rfl⟩ := hr.unique (rounds_shortest hb.pos q') ha hb
          rfl

section
variable {a b : UInt64}

theorem isCanonical_ofBits (a : UInt64) : (Binary.ofBits a).IsCanonical := by
  have hlt : a.toNat < 2 ^ 64 := a.toNat_lt
  have h11 : twoTo 11 = 2 ^ 11 := rfl
  have h52 : twoTo 52 = 2 ^ 52 := rfl
  simp only [Binary.ofBits, beq_iff_eq, h11, h52]
  split_ifs with he hf hz
  · trivial
  · trivial
  · by_cases hm : a.toNat % 2 ^ 52 = 0
    · exact .inl ⟨hm, rfl⟩
    · exact .inr ⟨by omega, by omega, by omega, .inr rfl⟩
  · exact .inr ⟨by omega, by omega, by omega, .inl (by omega)⟩

theorem ofBits_inj (h : Binary.ofBits a = Binary.ofBits b) (hn : Binary.ofBits a ≠ .nan) :
    a = b := by
  have ha : a.toNat < 2 ^ 64 := a.toNat_lt
  have hb : b.toNat < 2 ^ 64 := b.toNat_lt
  have h11 : twoTo 11 = 2 ^ 11 := rfl
  have h52 : twoTo 52 = 2 ^ 52 := rfl
  have h63 : twoTo 63 = 2 ^ 63 := rfl
  rw [← UInt64.toNat_inj]
  simp only [Binary.ofBits, beq_iff_eq, h11, h52, h63] at h hn
  split_ifs at h hn <;> simp at h hn <;> omega

end

theorem toBits_injective {x y : Float} (h : x.toBits = y.toBits) : x = y := by
  obtain ⟨⟨a, ha⟩⟩ := x
  obtain ⟨⟨b, hb⟩⟩ := y
  obtain rfl : a = b := h
  rfl

section
open Float.Model UnpackedFloat

theorem toNat_unpackMantissa (b : BitVec 64) :
    (@unpackMantissa .binary64 b).toNat = b.toNat % 2 ^ 52 := by
  simp [unpackMantissa, BitVec.extractLsb]

theorem toNat_unpackExponent (b : BitVec 64) :
    (@unpackExponent .binary64 b).toNat = b.toNat / 2 ^ 52 % 2 ^ 11 := by
  simp [unpackExponent, BitVec.extractLsb, Nat.shiftRight_eq_div_pow]

theorem toBits_of_nan {x : Float} (h : Binary.ofFloat x = .nan) :
    x.toBits.toBitVec = packedNaN .binary64 := by
  simp only [Binary.ofFloat, Binary.ofBits, beq_iff_eq] at h
  split_ifs at h with he hf
  refine x.toModel.valid.eq_packedNaN ?_ ?_
  · rw [← BitVec.toNat_inj, toNat_unpackExponent]
    exact he
  · rw [Ne, ← BitVec.toNat_inj, toNat_unpackMantissa]
    exact hf

end

theorem ofFloat_injective {x y : Float} (h : Binary.ofFloat x = Binary.ofFloat y) : x = y := by
  refine toBits_injective ?_
  by_cases hn : Binary.ofFloat x = .nan
  · have hx := toBits_of_nan hn
    have hy := toBits_of_nan (h ▸ hn)
    exact UInt64.toBitVec_inj.1 (hx.trans hy.symm)
  · exact ofBits_inj h hn

theorem floatText_injective {x y : Float} (h : floatText x = floatText y) : x = y := by
  refine ofFloat_injective (Binary.chars_inj (isCanonical_ofBits _) (isCanonical_ofBits _) ?_)
  have hchars := congrArg String.toList h
  rwa [floatText, floatText, String.toList_ofList, String.toList_ofList] at hchars

def IsMark (c : Char) : Prop := c = '.' ∨ c = 'e' ∨ c = 'n'

theorem exists_mark (b : Binary) : ∃ c ∈ b.chars, IsMark c := by
  have hdecimal : ∀ d : Scaled, ∃ c ∈ d.chars, IsMark c := by
    intro d
    unfold Scaled.chars positional scientific
    dsimp only
    split_ifs
    · exact ⟨'.', by simp, .inl rfl⟩
    · exact ⟨'.', by simp, .inl rfl⟩
    · exact ⟨'.', by simp, .inl rfl⟩
    all_goals exact ⟨'e', by simp, .inr (.inl rfl)⟩
  cases b with
  | nan => exact ⟨'n', by decide, .inr (.inr rfl)⟩
  | infinite negative => exact ⟨'n', by cases negative <;> decide, .inr (.inr rfl)⟩
  | finite negative m q =>
    obtain ⟨c, hc, hmark⟩ := hdecimal (written m q)
    rw [chars_finite]
    exact ⟨c, List.mem_append_right _ hc, hmark⟩

end LedgerReport.Decimal

namespace LedgerReport.Number
open Text Decimal

theorem minus_or_isDigit_of_mem_ofWhole {n : Int} {c : Char} (hc : c ∈ ofWhole n) :
    c = '-' ∨ c.isDigit = true := by
  cases n with
  | ofNat n =>
    rw [ofWhole_ofNat] at hc
    exact .inr (isDigit_of_mem_toDigits c hc)
  | negSucc n =>
    rw [ofWhole_negSucc, List.mem_cons] at hc
    exact hc.imp_right (isDigit_of_mem_toDigits c)

theorem not_isMark_of_mem_ofWhole {n : Int} {c : Char} (hc : c ∈ ofWhole n) : ¬ IsMark c := by
  intro hmark
  have hwhole := minus_or_isDigit_of_mem_ofWhole hc
  rcases hmark with rfl | rfl | rfl <;> simp [Char.isDigit] at hwhole

theorem floatText_ne_whole (x : Float) (n : Int) : floatText x ≠ toString n := by
  intro h
  obtain ⟨c, hc, hmark⟩ := exists_mark (Binary.ofFloat x)
  have hchars : (Binary.ofFloat x).chars = ofWhole n := by
    rw [ofWhole, ← h, floatText, String.toList_ofList]
  exact not_isMark_of_mem_ofWhole (hchars ▸ hc) hmark

theorem text_injective {a b : Number} (h : a.text = b.text) : a = b := by
  cases a with
  | whole m =>
    cases b with
    | whole n => exact congrArg whole (ofWhole_injective (congrArg String.toList h))
    | real y => exact absurd h.symm (floatText_ne_whole y m)
  | real x =>
    cases b with
    | whole n => exact absurd h (floatText_ne_whole x n)
    | real y => exact congrArg real (floatText_injective h)

def InText (c : Char) : Prop := InNumeral c ∨ c = 'a' ∨ c = 'f' ∨ c = 'i' ∨ c = 'n'

theorem inText_of_mem {n : Number} {c : Char} (hc : c ∈ n.text.toList) : InText c := by
  cases n with
  | whole n =>
    rcases minus_or_isDigit_of_mem_ofWhole hc with rfl | hd
    · exact .inl (by simp [InNumeral])
    · exact .inl (.inl hd)
  | real x =>
    simp only [text, floatText, String.toList_ofList] at hc
    cases hx : Binary.ofFloat x with
    | nan =>
      simp only [hx, Binary.chars, List.mem_cons, List.not_mem_nil, or_false] at hc
      rcases hc with rfl | rfl | rfl <;> simp [InText]
    | infinite negative =>
      simp only [hx, Binary.chars, List.mem_append, List.mem_cons, List.not_mem_nil, or_false] at hc
      rcases hc with hc | rfl | rfl | rfl
      · split_ifs at hc
        · obtain rfl := List.mem_singleton.1 hc
          simp [InText, InNumeral]
        · cases hc
      all_goals simp [InText]
    | finite negative m q =>
      rw [hx] at hc
      exact .inl (numerals_finite negative m q c hc)

theorem text_ne_nil (n : Number) : n.text.toList ≠ [] := by
  cases n with
  | whole n =>
    change ofWhole n ≠ []
    cases n with
    | ofNat n =>
      rw [ofWhole_ofNat]
      exact Nat.toDigits_ne_nil
    | negSucc n => simp [ofWhole_negSucc]
  | real x =>
    obtain ⟨c, hc, -⟩ := exists_mark (Binary.ofFloat x)
    rw [text, floatText, String.toList_ofList]
    exact List.ne_nil_of_mem hc

end LedgerReport.Number
