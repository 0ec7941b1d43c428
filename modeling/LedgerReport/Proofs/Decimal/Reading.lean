import LedgerReport.Proofs.Decimal.Fixed
import LedgerReport.Proofs.Numeral
/-!
The text of a floating-point value is read as the decimal that it is written from.

A decimal is written with a point among its digits, with zeros between its digits and the point, or
with an exponent. Each of these is read back as the same number of units of some power of ten, so
the values agree (`readDecimal?_chars`). The powers that occur for finite floating-point values are
small enough to be kept as they are (`shortest_exponent`).
-/

set_option autoImplicit false

namespace LedgerReport

namespace Text

theorem toNat_of_isDigit {c : Char} (h : c.isDigit = true) : 48 ≤ c.toNat ∧ c.toNat < 58 :=
  (Char.isDigit_iff_toNat.1 h).imp_right Nat.lt_succ_of_le

theorem toLower_of_isDigit {c : Char} (h : c.isDigit = true) : c.toLower = c := by
  refine dif_neg fun hupper => ?_
  have hfrom : 65 ≤ c.toNat := hupper.1
  have hc := toNat_of_isDigit h
  omega

theorem digitValue?_of_isDigit {c : Char} (h : c.isDigit = true) :
    digitValue? c = some (c.toNat - 48) := by
  simp [digitValue?, zeroPoints, toNat_of_isDigit h]

theorem isDecimalDigit_of_isDigit {c : Char} (h : c.isDigit = true) :
    isDecimalDigit c = true := by
  rw [isDecimalDigit, digitValue?_of_isDigit h]
  rfl

theorem areDigits_of_isDigit {cs : List Char} (h : ∀ c ∈ cs, c.isDigit = true) :
    Numeral.AreDigits cs :=
  fun c hc => isDecimalDigit_of_isDigit (h c hc)

theorem digitsValue_eq_ofDigitChars {cs : List Char} (h : ∀ c ∈ cs, c.isDigit = true) :
    digitsValue cs = Nat.ofDigitChars 10 cs 0 := by
  have hfold : ∀ n, cs.foldl (fun n c => 10 * n + (digitValue? c).getD 0) n =
      Nat.ofDigitChars 10 cs n := by
    induction cs with
    | nil => intro n; rfl
    | cons c cs ih =>
      intro n
      have hc := digitValue?_of_isDigit (h c List.mem_cons_self)
      rw [List.foldl_cons, hc, ih fun d hd => h d (List.mem_cons_of_mem c hd)]
      rfl
  exact hfold 0

theorem digitsValue_append (cs ds : List Char) :
    digitsValue (cs ++ ds) = digitsValue cs * 10 ^ ds.length + digitsValue ds := by
  have hfold : ∀ n, ds.foldl (fun n c => 10 * n + (digitValue? c).getD 0) n =
      n * 10 ^ ds.length + digitsValue ds := by
    induction ds with
    | nil => intro n; simp [digitsValue]
    | cons d ds ih =>
      intro n
      rw [digitsValue, List.foldl_cons, List.foldl_cons, ih, ih (10 * 0 + _), List.length_cons]
      ring
  rw [digitsValue, List.foldl_append, hfold]
  rfl

end Text

namespace Decimal
open Text Numeral

theorem isDigit_of_mem_digitChars {n : Nat} : ∀ c ∈ digitChars n, c.isDigit = true :=
  fun _ hc => Nat.isDigit_of_mem_toDigits (by omega) (by omega) hc

theorem isDigit_of_mem_zeros {n : Nat} : ∀ c ∈ zeros n, c.isDigit = true := by
  intro c hc
  rw [(List.mem_replicate.1 hc).2]
  rfl

theorem digitsValue_digitChars (n : Nat) : digitsValue (digitChars n) = n := by
  rw [digitsValue_eq_ofDigitChars isDigit_of_mem_digitChars]
  exact Nat.ofDigitChars_toDigits (by omega) (by omega)

theorem digitChars_ne_nil (n : Nat) : digitChars n ≠ [] := Nat.toDigits_ne_nil

theorem digitsValue_zeros (n : Nat) : digitsValue (zeros n) = 0 := by
  induction n with
  | zero => rfl
  | succ n ih =>
    have happ : zeros (n + 1) = ['0'] ++ zeros n := rfl
    rw [happ, digitsValue_append, ih]
    have hzero : digitsValue ['0'] = 0 := by decide
    rw [hzero, Nat.zero_mul]

end Decimal

namespace Numeral
open Text Decimal

theorem readDecimal?_point {ds es tail : List Char} (hd : AreDigits ds) (hn : ds ≠ [])
    (he : AreDigits es) (ht : Stops tail) : readDecimal? (ds ++ '.' :: (es ++ tail)) =
      (readExponent? tail).map fun e : Int => (digitsValue (ds ++ es), e - es.length) := by
  simp only [readDecimal?, spanDigits_append hd (stops_point _), spanDigits_append he ht,
    List.isEmpty_map, ← List.map_append, ofDigits_map, List.length_map]
  simp [hn]

theorem readDecimal?_exponent {ds tail : List Char} (hd : AreDigits ds) (hn : ds ≠ [])
    (ht : Stops ('e' :: tail)) : readDecimal? (ds ++ 'e' :: tail) =
      (readExponent? ('e' :: tail)).map fun e => (digitsValue ds, e) := by
  simp only [readDecimal?, spanDigits_append hd ht, List.isEmpty_map]
  simp [hn, ofDigits_map]

theorem stops_exponent (tail : List Char) : Stops ('e' :: tail) := by
  rintro c r h
  cases h
  exact ⟨by decide, by decide⟩

theorem readExponent?_exponentChars (e : Int) :
    readExponent? ('e' :: exponentChars e) = some e := by
  have hdigits : ∀ ds, AreDigits ds → ds ≠ [] → digitsValue ds = e.natAbs →
      readExponent? ('e' :: (if e < 0 then '-' else '+') :: ds) = some e := by
    intro ds hd hn hv
    obtain ⟨c, r, rfl⟩ := List.exists_cons_of_ne_nil hn
    have hspan := spanDigits_digits hd false
    rw [List.map_cons] at hspan
    have hval := ofDigits_map (c :: r)
    rw [List.map_cons, hv] at hval
    by_cases he : e < 0
    · simp only [readExponent?, signedDigits?, ofSignedDigits, if_pos he, true_or, if_true,
        splitSign, hspan, Option.map_some, hval]
      congr 1
      omega
    · simp only [readExponent?, signedDigits?, ofSignedDigits, if_neg he, true_or, if_true,
        splitSign, hspan, Option.map_some, hval]
      congr 1
      simp only [Bool.false_eq_true, if_false]
      omega
  have hd := areDigits_of_isDigit (isDigit_of_mem_digitChars (n := e.natAbs))
  simp only [exponentChars]
  by_cases hl : (digitChars e.natAbs).length < 2
  · rw [if_pos hl]
    refine hdigits _ ?_ (List.cons_ne_nil _ _) ?_
    · intro c hc
      rcases List.mem_cons.1 hc with rfl | hc
      · decide
      · exact hd c hc
    · have happ : '0' :: digitChars e.natAbs = zeros 1 ++ digitChars e.natAbs := rfl
      rw [happ, digitsValue_append, digitsValue_zeros, digitsValue_digitChars, Nat.zero_mul,
        Nat.zero_add]
  · rw [if_neg hl]
    exact hdigits _ hd (digitChars_ne_nil _) (digitsValue_digitChars _)

end Numeral

namespace Decimal
open Text Numeral

section
variable {ds : List Char}

theorem readDecimal?_scientific (hd : AreDigits ds) (hn : ds ≠ []) (place : Int) :
    readDecimal? (scientific ds place) = some (digitsValue ds, place - ds.length) := by
  obtain ⟨c, r, rfl⟩ := List.exists_cons_of_ne_nil hn
  have hc : AreDigits [c] := fun d h => hd d (List.mem_singleton.1 h ▸ List.mem_cons_self)
  have hr : AreDigits r := fun d h => hd d (List.mem_cons_of_mem c h)
  have he := readExponent?_exponentChars (place - 1)
  cases r with
  | nil =>
    have hs : scientific [c] place = [c] ++ 'e' :: exponentChars (place - 1) := rfl
    rw [hs, readDecimal?_exponent hc (List.cons_ne_nil _ _) (stops_exponent _), he]
    rfl
  | cons d r =>
    have hs : scientific (c :: d :: r) place =
        [c] ++ '.' :: ((d :: r) ++ 'e' :: exponentChars (place - 1)) := rfl
    have hexp : place - 1 - ((d :: r).length : Int) = place - ((c :: d :: r).length : Int) := by
      simp only [List.length_cons]
      omega
    rw [hs, readDecimal?_point hc (List.cons_ne_nil _ _) hr (stops_exponent _), he,
      Option.map_some, hexp]
    rfl

theorem readDecimal?_positional (hd : AreDigits ds) (hn : ds ≠ []) (place : Int) :
    ∃ n e, readDecimal? (positional ds place) = some (n, e) ∧
      (n : ℚ) * 10 ^ e = digitsValue ds * 10 ^ (place - ds.length) ∧
      (e = place - ds.length ∨ e = -1) := by
  have hzeros : ∀ n, AreDigits (zeros n) := fun n => areDigits_of_isDigit isDigit_of_mem_zeros
  have hexp : readExponent? [] = some 0 := rfl
  have hone : AreDigits ['0'] := areDigits_of_isDigit (List.forall_mem_singleton.2 rfl)
  have hvalue : ∀ (cs : List Char) n, digitsValue (cs ++ zeros n) = digitsValue cs * 10 ^ n := by
    intro cs n
    rw [digitsValue_append, digitsValue_zeros, Nat.add_zero, zeros, List.length_replicate]
  unfold positional
  split
  · rename_i hp
    have hes : AreDigits (zeros (-place).toNat ++ ds) := fun c hc =>
      (List.mem_append.1 hc).elim (hzeros _ c) (hd c)
    have hread := readDecimal?_point hone (List.cons_ne_nil _ _) hes stops_nil
    rw [List.append_nil, hexp] at hread
    have he : (0 : Int) - ((zeros (-place).toNat ++ ds).length : Int) = place - ds.length := by
      rw [List.length_append, zeros, List.length_replicate]
      omega
    have hn : digitsValue (['0'] ++ (zeros (-place).toNat ++ ds)) = digitsValue ds := by
      have hzero : ['0'] ++ (zeros (-place).toNat ++ ds) = zeros ((-place).toNat + 1) ++ ds := rfl
      rw [hzero, digitsValue_append, digitsValue_zeros, Nat.zero_mul, Nat.zero_add]
    rw [Option.map_some, he, hn] at hread
    exact ⟨_, _, hread, rfl, .inl rfl⟩
  split
  · rename_i hp hl
    have hds : AreDigits (ds ++ zeros (place.toNat - ds.length)) := fun c hc =>
      (List.mem_append.1 hc).elim (hd c) (hzeros _ c)
    have hread := readDecimal?_point hds (by simp [hn]) hone stops_nil
    rw [List.append_nil, hexp, Option.map_some] at hread
    refine ⟨_, _, hread, ?_, .inr rfl⟩
    have hzero : ['0'] = zeros 1 := rfl
    obtain ⟨k, hk⟩ : ∃ k : Nat, place = ds.length + k := ⟨place.toNat - ds.length, by omega⟩
    have hcount : place.toNat - ds.length = k := by omega
    have hplace : (ds.length + k : Int) - ds.length = k := by omega
    have hten : (10 : ℚ) * 10 ^ (-1 : Int) = 1 := by norm_num
    rw [hzero, hvalue, hvalue, hcount, hk, hplace, zpow_natCast, pow_one, Nat.cast_mul,
      Nat.cast_mul, Nat.cast_pow, Nat.cast_ofNat, mul_assoc]
    change _ * ((10 : ℚ) * 10 ^ (-1 : Int)) = _
    rw [hten, mul_one]
  · rename_i hp hl
    have hsome : ds.take place.toNat ≠ [] := by
      rw [Ne, List.take_eq_nil_iff, not_or]
      exact ⟨by omega, hn⟩
    have hbefore : AreDigits (ds.take place.toNat) := fun c hc => hd c (List.mem_of_mem_take hc)
    have hafter : AreDigits (ds.drop place.toNat) := fun c hc => hd c (List.mem_of_mem_drop hc)
    have hread := readDecimal?_point hbefore hsome hafter stops_nil
    rw [List.append_nil, hexp, Option.map_some, List.take_append_drop] at hread
    refine ⟨_, _, hread, ?_, .inl ?_⟩
    all_goals rw [List.length_drop]
    · congr 2
      omega
    · omega

end

theorem readDecimal?_chars (d : Scaled) : ∃ n e, readDecimal? d.chars = some (n, e) ∧
    (n : ℚ) * 10 ^ e = d.value ∧ (e = d.exponent ∨ e = -1) := by
  have hd := areDigits_of_isDigit (isDigit_of_mem_digitChars (n := d.digits))
  have hn := digitChars_ne_nil d.digits
  have hexp : ((digitChars d.digits).length : Int) + d.exponent -
      ((digitChars d.digits).length : Int) = d.exponent := by omega
  unfold Scaled.chars
  dsimp only
  split
  · obtain ⟨n, e, hread, hvalue, he⟩ := readDecimal?_positional hd hn
      ((digitChars d.digits).length + d.exponent)
    rw [hexp] at hvalue he
    rw [digitsValue_digitChars] at hvalue
    exact ⟨n, e, hread, hvalue, he⟩
  · refine ⟨_, _, readDecimal?_scientific hd hn _, ?_, .inl hexp⟩
    rw [hexp, digitsValue_digitChars]
    rfl

def InNumeral (c : Char) : Prop := c.isDigit = true ∨ c = '.' ∨ c = 'e' ∨ c = '+' ∨ c = '-'

def Numerals (cs : List Char) : Prop := ∀ c ∈ cs, InNumeral c

namespace Numerals
variable {cs : List Char}

theorem of_isDigit (h : ∀ c ∈ cs, c.isDigit = true) : Numerals cs := fun c hc => .inl (h c hc)

theorem append {ds : List Char} (hc : Numerals cs) (hd : Numerals ds) : Numerals (cs ++ ds) :=
  List.forall_mem_append.2 ⟨hc, hd⟩

theorem cons {c : Char} (hc : InNumeral c) (h : Numerals cs) : Numerals (c :: cs) :=
  List.forall_mem_cons.2 ⟨hc, h⟩

theorem nil : Numerals [] := nofun

theorem isBlank_eq_false (h : Numerals cs) : ∀ c ∈ cs, isBlank c = false := by
  intro c hc
  rcases h c hc with hd | rfl | rfl | rfl | rfl
  · exact isBlank_of_isDecimalDigit (isDecimalDigit_of_isDigit hd)
  all_goals decide

theorem ne_underscore (h : Numerals cs) : ∀ c ∈ cs, c ≠ '_' := by
  rintro c hc rfl
  have hnot : ¬ InNumeral '_' := by
    unfold InNumeral
    decide
  exact hnot (h '_' hc)

end Numerals

theorem numerals_digitChars (n : Nat) : Numerals (digitChars n) :=
  .of_isDigit isDigit_of_mem_digitChars

theorem numerals_zeros (n : Nat) : Numerals (zeros n) := .of_isDigit isDigit_of_mem_zeros

theorem numerals_exponentChars (e : Int) : Numerals (exponentChars e) := by
  refine .cons ?_ ?_
  · split_ifs <;> exact .inr (by decide)
  · split_ifs
    · exact .cons (.inl rfl) (numerals_digitChars _)
    · exact numerals_digitChars _

theorem numerals_chars (d : Scaled) : Numerals d.chars := by
  have hd := numerals_digitChars d.digits
  have htake : ∀ n, Numerals ((digitChars d.digits).take n) :=
    fun _ c hc => hd c (List.mem_of_mem_take hc)
  have hdrop : ∀ n, Numerals ((digitChars d.digits).drop n) :=
    fun _ c hc => hd c (List.mem_of_mem_drop hc)
  unfold Scaled.chars
  dsimp only
  split
  · unfold positional
    split_ifs
    · exact .cons (.inl rfl) (.cons (.inr (by decide)) (.append (numerals_zeros _) hd))
    · exact .append (.append hd (numerals_zeros _))
        (.cons (.inr (by decide)) (.cons (.inl rfl) .nil))
    · exact .append (htake _) (.cons (.inr (by decide)) (hdrop _))
  · refine .append (.append (htake 1) ?_) (.cons (.inr (by decide)) (numerals_exponentChars _))
    split_ifs
    · exact .nil
    · exact .cons (.inr (by decide)) (hdrop 1)

theorem chars_head (d : Scaled) : ∃ c r, d.chars = c :: r ∧ c.isDigit = true := by
  obtain ⟨c, r, hcr⟩ := List.exists_cons_of_ne_nil (digitChars_ne_nil d.digits)
  have hc : c.isDigit = true := isDigit_of_mem_digitChars c (hcr ▸ List.mem_cons_self)
  unfold Scaled.chars
  rw [hcr]
  dsimp only
  split
  · unfold positional
    split_ifs with hp
    · exact ⟨'0', _, rfl, rfl⟩
    · exact ⟨c, _, rfl, hc⟩
    · obtain ⟨n, hn⟩ : ∃ n, ((c :: r).length + d.exponent).toNat = n + 1 :=
        ⟨((c :: r).length + d.exponent).toNat - 1, by omega⟩
      rw [hn]
      exact ⟨c, _, rfl, hc⟩
  · exact ⟨c, _, rfl, hc⟩

theorem numerals_signed {cs : List Char} (h : Numerals cs) (negative : Bool) :
    Numerals ((if negative then ['-'] else []) ++ cs) := by
  refine .append ?_ h
  split_ifs
  · exact .cons (.inr (by decide)) .nil
  · exact .nil

theorem splitSign_signed {c : Char} {r : List Char} (hc : c.isDigit = true) (negative : Bool) :
    splitSign ((if negative then ['-'] else []) ++ c :: r) = (negative, c :: r) := by
  have hdigit := isDecimalDigit_of_isDigit hc
  cases negative with
  | true => rfl
  | false =>
    exact splitSign_of_ne (ne_of_isDecimalDigit hdigit (by decide))
      (ne_of_isDecimalDigit hdigit (by decide))

theorem readReal?_numeral {cs : List Char} {p : Nat × Int}
    (hhead : ∃ c r, cs = c :: r ∧ c.isDigit = true) (hc : Numerals cs)
    (hread : readDecimal? cs = some p) (negative : Bool) :
    ∃ y, readReal? (String.ofList ((if negative then ['-'] else []) ++ cs)) = some y := by
  obtain ⟨c, r, rfl, hd⟩ := hhead
  simp only [readReal?, String.toList_ofList,
    unpadded_of_not_blank (numerals_signed hc negative).isBlank_eq_false,
    splitSign_signed hd negative, hread]
  cases readWord? (c :: r) with
  | none => exact ⟨_, rfl⟩
  | some y => exact ⟨_, rfl⟩

/-- Text of a numeral, with a sign in front, is the decimal that the numeral writes. -/
theorem ofText?_numeral {cs : List Char} {n : Nat} {e : Int}
    (hhead : ∃ c r, cs = c :: r ∧ c.isDigit = true) (hc : Numerals cs)
    (hread : readDecimal? cs = some (n, e)) (hlow : -2000 ≤ e) (hhigh : e ≤ 2000)
    (negative : Bool) :
    Quantity.ofText? (String.ofList ((if negative then ['-'] else []) ++ cs)) =
      some (.finite negative ⟨n, e⟩) := by
  obtain ⟨c, r, rfl, hd⟩ := hhead
  have hdigit := isDecimalDigit_of_isDigit hd
  have hsigned := numerals_signed hc negative
  have hkept : ((trimChars ((if negative then ['-'] else []) ++ c :: r)).filter (· ≠ '_')) =
      (if negative then ['-'] else []) ++ c :: r := by
    rw [trimChars_of_not_blank hsigned.isBlank_eq_false, List.filter_eq_self]
    exact fun x hx => decide_eq_true (hsigned.ne_underscore x hx)
  have hclamp : max (-(2000 + (c :: r).length : Int)) (min 2000 e) = e := by omega
  have hi : c ≠ 'i' := ne_of_isDecimalDigit hdigit (by decide)
  simp only [Quantity.ofText?, String.toList_ofList, hkept, splitSign_signed hd negative, hread,
    Option.map_some, hclamp, List.map_cons, toLower_of_isDigit hd]
  rw [List.takeWhile_cons_of_neg (by simp [hdigit])]
  simp [hi]

open Float.Model in
theorem isFinite_iff (x : Float) :
    x.isFinite = true ↔ x.toBits.toNat / twoTo 52 % twoTo 11 ≠ 2047 := by
  have hcases : ∀ {p q : Prop} [Decidable p] [Decidable q] {s y}, UnpackedFloat.isFinite y = true →
      ((if p then if q then .infinity s else .notANumber else y).isFinite = true ↔ ¬ p) := by
    intro p q _ _ s y hy
    by_cases hp : p
    · rw [if_pos hp]
      by_cases hq : q
      · rw [if_pos hq]
        exact iff_of_false Bool.false_ne_true fun hn => hn hp
      · rw [if_neg hq]
        exact iff_of_false Bool.false_ne_true fun hn => hn hp
    · rw [if_neg hp]
      exact iff_of_true hy hp
  have hfinite : ∀ {p q : Prop} [Decidable p] [Decidable q] {s m e k i} {hm : ¬ q → 0 < m}
      {hk : 0 < k}, UnpackedFloat.isFinite (if p then
        if h : q then .zero s else .finite s m e (hm h) else .finite s k i hk) = true := by
    intro p q _ _ s m e k i hm hk
    by_cases hp : p
    · rw [if_pos hp]
      by_cases hq : q
      · rw [dif_pos hq]
        rfl
      · rw [dif_neg hq]
        rfl
    · rw [if_neg hp]
      rfl
  have hfield : x.isFinite = true ↔
      ¬ @UnpackedFloat.unpackExponent .binary64 x.toBits.toBitVec = -1 := hcases hfinite
  rw [hfield, ← BitVec.toNat_inj]
  simp [UnpackedFloat.unpackExponent, BitVec.extractLsb, Nat.shiftRight_eq_div_pow, twoTo]

/-- A finite value has a significand of 53 bits, and its exponent is within a range. -/
theorem ofFloat_of_isFinite {x : Float} (h : x.isFinite = true) :
    ∃ negative m q, Binary.ofFloat x = .finite negative m q ∧
      m < 2 ^ 53 ∧ -1074 ≤ q ∧ q ≤ 971 := by
  rw [isFinite_iff] at h
  have hf : x.toBits.toNat % twoTo 52 < 2 ^ 52 := Nat.mod_lt _ (by decide)
  have he : x.toBits.toNat / twoTo 52 % twoTo 11 < 2 ^ 11 := Nat.mod_lt _ (by decide)
  have htwo : twoTo 52 = 2 ^ 52 := rfl
  simp only [Binary.ofFloat, Binary.ofBits, beq_iff_eq, if_neg h]
  split_ifs
  · exact ⟨_, _, _, rfl, by omega, by omega, by omega⟩
  · exact ⟨_, _, _, rfl, by omega, by omega, by omega⟩

section
variable {m : Nat} {q : Int}

theorem decimalPlace_bounds (hm : m < 2 ^ 53) (hlow : -1074 ≤ q) (hhigh : q ≤ 971) :
    -325 ≤ decimalPlace m q ∧ decimalPlace m q ≤ 312 := by
  have hlog : m.log2 < 53 := by
    by_cases h : m = 0
    · rw [h]
      decide
    · exact (Nat.log2_lt h).2 hm
  unfold decimalPlace
  dsimp only
  generalize hf : (List.range 5).find? _ = found
  have hfound : found.getD 5 ≤ 5 := by
    cases found with
    | none => exact Nat.le_refl 5
    | some i => exact Nat.le_of_lt (List.mem_range.1 (List.mem_of_find?_eq_some hf))
  omega

theorem withDigits?_exponent {k : Int} {n : Nat} {d : Scaled} (h : withDigits? m q k n = some d) :
    d.exponent = k - n := by
  unfold withDigits? at h
  dsimp only at h
  split at h
  · split_ifs at h <;> cases h <;> rfl
  · cases h
    rfl
  · cases h
    rfl
  · cases h

theorem dropZeros_exponent (fuel : Nat) (d : Scaled) :
    d.exponent ≤ (dropZeros fuel d).exponent ∧ (dropZeros fuel d).exponent ≤ d.exponent + fuel := by
  induction fuel generalizing d with
  | zero => exact ⟨Int.le_refl _, by simp [dropZeros]⟩
  | succ fuel ih =>
    rw [dropZeros]
    split_ifs
    · have h := ih ⟨d.digits / 10, d.exponent + 1⟩
      dsimp only at h
      omega
    · omega

theorem shortest_exponent (hm : m < 2 ^ 53) (hlow : -1074 ≤ q) (hhigh : q ≤ 971) :
    -1074 ≤ (shortest m q).exponent ∧ (shortest m q).exponent ≤ 332 := by
  have hk := decimalPlace_bounds hm hlow hhigh
  unfold shortest
  dsimp only
  generalize hf : (List.range 17).findSome? _ = found
  have hzeros := dropZeros_exponent 20
    (found.getD ⟨m * twoTo q.toNat * fiveTo (-q).toNat, min 0 q⟩)
  cases found with
  | none =>
    simp only [Option.getD_none] at hzeros ⊢
    omega
  | some d =>
    obtain ⟨n, hn, hd⟩ := List.exists_of_findSome?_eq_some hf
    have he := withDigits?_exponent hd
    have hlt := List.mem_range.1 hn
    simp only [Option.getD_some] at hzeros ⊢
    omega

end

theorem ofText?_floatText {x : Float} (h : x.isFinite = true) :
    ∃ negative d d', (Binary.ofFloat x).quantity = .finite negative d ∧
      Quantity.ofText? (floatText x) = some (.finite negative d') ∧ d'.value = d.value := by
  obtain ⟨negative, m, q, hx, hm, hlow, hhigh⟩ := ofFloat_of_isFinite h
  set d : Scaled := if m = 0 then ⟨0, 0⟩ else shortest m q with hd
  have hbounds : -1074 ≤ d.exponent ∧ d.exponent ≤ 332 := by
    rw [hd]
    split_ifs
    · exact ⟨by decide, by decide⟩
    · exact shortest_exponent hm hlow hhigh
  -- zero is written as the decimal `0 * 10^0` is
  have hchars : floatText x = String.ofList ((if negative then ['-'] else []) ++ d.chars) := by
    rw [floatText, hx, hd, Binary.chars]
    split_ifs <;> rfl
  obtain ⟨n, e, hread, hvalue, he⟩ := readDecimal?_chars d
  refine ⟨negative, d, ⟨n, e⟩, by rw [hx]; rfl, ?_, hvalue⟩
  rw [hchars]
  exact ofText?_numeral (chars_head d) (numerals_chars d) hread (by omega) (by omega) negative

end Decimal
end LedgerReport
