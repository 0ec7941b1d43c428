import LedgerReport.Proofs.Decimal.Reading
import LedgerReport.Statement.Display
set_option autoImplicit false

namespace LedgerReport

namespace Decimal
open Text

/-- Digits split from the right into groups of three, and the text with a comma between groups. -/
inductive Grouped : List Char → List Char → Prop where
  | short {ds : List Char} : ds ≠ [] → ds.length ≤ 3 → Grouped ds ds
  | more {ds shown group : List Char} : Grouped ds shown → group.length = 3 →
      Grouped (ds ++ group) (shown ++ ',' :: group)

/-- The parts of a number: its digits before the point, how these are shown, and the digits after
the point. -/
structure Parts where
  whole : List Char
  shown : List Char
  fraction : List Char

namespace Parts

def chars (p : Parts) : List Char := p.shown ++ if p.fraction = [] then [] else '.' :: p.fraction

/-- Whether the parts write a whole number of units of the last of some decimal places. -/
structure Writes (p : Parts) (thousands : Bool) (places units : Nat) : Prop where
  digits : ∀ c ∈ p.whole ++ p.fraction, c.isDigit = true
  value : Nat.ofDigitChars 10 (p.whole ++ p.fraction) 0 = units
  places : p.fraction.length = places
  nonempty : p.whole ≠ []
  unpadded : p.whole.head? = some '0' → p.whole = ['0']
  shown : if thousands then Grouped p.whole p.shown else p.shown = p.whole

end Parts

section
variable {ds group : List Char}

theorem grouped_of_length_le (h : ds.length ≤ 3) : grouped ds = ds := by
  induction ds with
  | nil => rfl
  | cons c r ih =>
    rw [List.length_cons] at h
    have hn : ¬ (r.length % 3 = 0 ∧ r ≠ []) := by
      rintro ⟨hm, hr⟩
      have := List.length_pos_iff.2 hr
      omega
    rw [grouped, if_neg hn, ih (by omega)]

theorem grouped_append (hd : ds ≠ []) (hg : group.length = 3) :
    grouped (ds ++ group) = grouped ds ++ ',' :: group := by
  have hne : group ≠ [] := List.ne_nil_of_length_eq_add_one hg
  induction ds with
  | nil => exact absurd rfl hd
  | cons c r ih =>
    rw [List.cons_append, grouped, grouped]
    by_cases hr : r = []
    · subst hr
      have hc : ([] ++ group).length % 3 = 0 ∧ [] ++ group ≠ [] := by
        rw [List.nil_append, hg]
        exact ⟨rfl, hne⟩
      rw [if_pos hc, if_neg (by simp), List.nil_append, grouped_of_length_le (Nat.le_of_eq hg)]
      rfl
    · have hiff : ((r ++ group).length % 3 = 0 ∧ r ++ group ≠ []) ↔
          (r.length % 3 = 0 ∧ r ≠ []) := by
        rw [List.length_append, hg, Nat.add_mod_right]
        simp [hr]
      simp only [hiff, ih hr]
      split_ifs <;> rfl

theorem grouped_spec (h : ds ≠ []) : Grouped ds (grouped ds) := by
  induction hl : ds.length using Nat.strong_induction_on generalizing ds with
  | _ n ih =>
    by_cases hs : n ≤ 3
    · rw [grouped_of_length_le (by omega)]
      exact .short h (by omega)
    · have hfront : (ds.take (n - 3)).length = n - 3 := by
        rw [List.length_take]
        omega
      have hback : (ds.drop (n - 3)).length = 3 := by
        rw [List.length_drop]
        omega
      have hne : ds.take (n - 3) ≠ [] := by
        intro hnil
        rw [hnil, List.length_nil] at hfront
        omega
      have happ := grouped_append hne hback
      have hmore := Grouped.more (ih (n - 3) (by omega) hne hfront) hback
      rw [List.take_append_drop] at happ hmore
      rw [happ]
      exact hmore

theorem filter_of_isDigit (h : ∀ c ∈ ds, c.isDigit = true) : ds.filter (· ≠ ',') = ds := by
  rw [List.filter_eq_self]
  rintro c hc
  refine decide_eq_true ?_
  rintro rfl
  exact absurd (h _ hc) (by decide)

theorem filter_grouped (h : ∀ c ∈ ds, c.isDigit = true) :
    (grouped ds).filter (· ≠ ',') = ds := by
  have hkeep := filter_of_isDigit h
  induction ds with
  | nil => rfl
  | cons c r ih =>
    have hr := fun d hd => h d (List.mem_cons_of_mem c hd)
    have hc : c ≠ ',' := of_decide_eq_true (List.filter_eq_self.1 hkeep c List.mem_cons_self)
    rw [grouped]
    split_ifs <;> simpa [hc] using ih hr (filter_of_isDigit hr)

end

theorem digitChars_head {n : Nat} (h : (digitChars n).head? = some '0') : n = 0 := by
  induction n using Nat.strong_induction_on with
  | _ n ih =>
    by_cases hn : n < 10
    · rw [digitChars, Nat.toDigits_of_lt_base hn] at h
      simpa using h
    · rw [digitChars, Nat.toDigits_of_base_le (by omega) (by omega),
        List.head?_append_of_ne_nil _ Nat.toDigits_ne_nil] at h
      have := ih (n / 10) (by omega) h
      omega

/-- The digits of a number of units, with zeros in front where they are needed to have one digit
before the point. -/
def unitDigits (places units : Nat) : List Char :=
  zeros (places + 1 - (digitChars units).length) ++ digitChars units

theorem length_unitDigits (places units : Nat) :
    (unitDigits places units).length = max (places + 1) (digitChars units).length := by
  rw [unitDigits, List.length_append, zeros, List.length_replicate]
  omega

theorem isDigit_of_mem_unitDigits (places units : Nat) :
    ∀ c ∈ unitDigits places units, c.isDigit = true :=
  List.forall_mem_append.2 ⟨isDigit_of_mem_zeros, isDigit_of_mem_digitChars⟩

theorem ofDigitChars_unitDigits (places units : Nat) :
    Nat.ofDigitChars 10 (unitDigits places units) 0 = units := by
  rw [← digitsValue_eq_ofDigitChars (isDigit_of_mem_unitDigits places units), unitDigits,
    digitsValue_append, digitsValue_zeros, digitsValue_digitChars, Nat.zero_mul, Nat.zero_add]

theorem unitDigits_unpadded {places units : Nat}
    (h : (unitDigits places units).head? = some '0') :
    (unitDigits places units).length = places + 1 := by
  rw [length_unitDigits]
  by_cases hl : (digitChars units).length ≤ places + 1
  · omega
  · have hzeros : zeros (places + 1 - (digitChars units).length) = [] := by
      rw [Nat.sub_eq_zero_of_le (by omega)]
      rfl
    rw [unitDigits, hzeros, List.nil_append] at h
    rw [digitChars_head h]
    exact Nat.max_eq_left (Nat.le_add_left 1 places)

theorem unitChars_writes (thousands : Bool) (places units : Nat) :
    ∃ p : Parts, unitChars thousands places units = p.chars ∧
      p.Writes thousands places units := by
  have hlen := length_unitDigits places units
  set ds := unitDigits places units
  have hwhole : (ds.take (ds.length - places)).length = ds.length - places := by
    rw [List.length_take]
    omega
  have hne : ds.take (ds.length - places) ≠ [] := by
    intro hnil
    rw [hnil, List.length_nil] at hwhole
    omega
  have happ := List.take_append_drop (ds.length - places) ds
  refine ⟨⟨ds.take (ds.length - places), if thousands then grouped (ds.take (ds.length - places))
    else ds.take (ds.length - places), ds.drop (ds.length - places)⟩, ?_, ?_, ?_, ?_, hne, ?_, ?_⟩
  · simp only [Parts.chars, ← List.isEmpty_iff]
    rfl
  · rw [happ]
    exact isDigit_of_mem_unitDigits places units
  · rw [happ]
    exact ofDigitChars_unitDigits places units
  · rw [List.length_drop]
    omega
  · intro h
    rw [List.head?_take, if_neg (by omega)] at h
    have hone : ds.length - places = 1 := by
      rw [unitDigits_unpadded h]
      omega
    obtain ⟨r, hr⟩ := List.head?_eq_some_iff.1 h
    rw [hone, hr]
    rfl
  · cases thousands with
    | true => exact grouped_spec hne
    | false => rfl

theorem filter_unitChars (places units : Nat) :
    (unitChars true places units).filter (· ≠ ',') = unitChars false places units := by
  have hds := isDigit_of_mem_unitDigits places units
  set n := (unitDigits places units).length - places
  have hwhole := filter_grouped fun c hc => hds c (List.mem_of_mem_take (i := n) hc)
  have hfraction := filter_of_isDigit fun c hc => hds c (List.mem_of_mem_drop (i := n) hc)
  have htrue : unitChars true places units = grouped ((unitDigits places units).take n) ++
      if ((unitDigits places units).drop n).isEmpty then []
        else '.' :: (unitDigits places units).drop n := rfl
  have hfalse : unitChars false places units = (unitDigits places units).take n ++
      if ((unitDigits places units).drop n).isEmpty then []
        else '.' :: (unitDigits places units).drop n := rfl
  rw [htrue, hfalse, List.filter_append, hwhole]
  split_ifs
  · rfl
  · rw [List.filter_cons_of_pos (by decide), hfraction]

def Quantity.value? : Quantity → Option ℚ
  | .finite negative d => some (if negative then -d.value else d.value)
  | _ => none

theorem Scaled.value_nonneg (d : Scaled) : 0 ≤ d.value :=
  mul_nonneg (Nat.cast_nonneg _) (zpow_nonneg (by norm_num) _)

theorem Scaled.value_pos {d : Scaled} {places : Int} (h : d.units places ≠ 0) : 0 < d.value := by
  refine lt_of_le_of_ne d.value_nonneg fun hzero => h ?_
  have hunits := d.units_eq_floor places
  rw [← hzero, zero_mul, zero_add] at hunits
  have hhalf : ⌊(1 / 2 : ℚ)⌋ = 0 := by norm_num
  omega

theorem fixed_finite (negative thousands : Bool) {d : Scaled} {places : Nat} (hp : places ≤ 4)
    (h : d.units places < 10 ^ 28) :
    fixed places thousands (.finite negative d) = .ok
      ((if negative = true ∧ d.units places ≠ 0 then ['-'] else []) ++
        unitChars thousands places (d.units places)) := by
  have hrange : UnitInRange places := ⟨by omega, by omega⟩
  have hu : ¬ tenTo 28 ≤ d.units places := Nat.not_le.2 h
  have hn : ¬ (places : Int) < 0 := by omega
  simp only [fixed, if_pos hrange, fixedInRange, if_neg hu, if_neg hn, Int.toNat_natCast]

end Decimal

namespace Display
open Decimal

/-- A finite floating-point value is shown as the decimal that its text denotes, rounded half up to
units of the last place, unless there are more than 28 digits of them. -/
theorem number_real_exact {x : Float} (hx : x.isFinite = true) {places : Nat} (hp : places ≤ 4)
    (thousands : Bool) :
    ∃ value : ℚ, (Quantity.ofText? (floatText x)).bind Quantity.value? = some value ∧
      ∃ units : Nat, (units : ℤ) = ⌊|value| * 10 ^ places + 1 / 2⌋ ∧
        (10 ^ 28 ≤ units → number (.number (.real x)) places thousands = .error .outOfRange) ∧
        (units < 10 ^ 28 → ∃ p : Parts, p.Writes thousands places units ∧
          number (.number (.real x)) places thousands = .ok (String.ofList
            ((if value < 0 ∧ units ≠ 0 then ['-'] else []) ++ p.chars)) ∧
          ∃ bare grouped, number (.number (.real x)) places false = .ok bare ∧
            number (.number (.real x)) places true = .ok grouped ∧
            grouped.toList.filter (· ≠ ',') = bare.toList) := by
  obtain ⟨negative, d, d', hq, htext, hvalue⟩ := ofText?_floatText hx
  have hunits := Scaled.units_eq_floor d places
  rw [zpow_natCast] at hunits
  have hnumber : ∀ thousands, number (.number (.real x)) places thousands =
      quantity (.finite negative d) places thousands := fun _ => by rw [← hq]; rfl
  refine ⟨if negative then -d.value else d.value, ?_, d.units places, ?_, ?_, ?_⟩
  · rw [htext, ← hvalue]
    rfl
  · rw [hunits]
    have habs : |if negative then -d.value else d.value| = d.value := by
      split_ifs
      · rw [abs_neg, abs_of_nonneg d.value_nonneg]
      · rw [abs_of_nonneg d.value_nonneg]
    rw [habs]
  · intro hlarge
    have hfit : ¬ (Quantity.finite negative d).Fits places := by
      rw [← units_lt_iff negative]
      exact Nat.not_lt.2 hlarge
    rw [hnumber, quantity, fixed_error thousands ⟨by omega, by omega⟩ hfit]
    rfl
  · intro hsmall
    obtain ⟨p, hparts, hwrites⟩ := unitChars_writes thousands places (d.units places)
    have hok : ∀ thousands, number (.number (.real x)) places thousands = .ok (String.ofList
        ((if negative = true ∧ d.units places ≠ 0 then ['-'] else []) ++
          unitChars thousands places (d.units places))) := fun thousands => by
      rw [hnumber, quantity, fixed_finite negative thousands hp hsmall]
    refine ⟨p, hwrites, ?_, _, _, hok false, hok true, ?_⟩
    · have hsign : ((if negative then -d.value else d.value) < 0 ∧ d.units places ≠ 0) ↔
          (negative = true ∧ d.units places ≠ 0) := by
        refine and_congr_left fun hne => ?_
        have hpos := Scaled.value_pos hne
        cases negative with
        | true => simpa using hpos
        | false => simpa using hpos.le
      rw [hok, hparts, if_congr hsign rfl rfl]
    · have hsign : (if negative = true ∧ d.units places ≠ 0 then ['-'] else []).filter (· ≠ ',') =
          if negative = true ∧ d.units places ≠ 0 then ['-'] else [] := by
        split_ifs <;> rfl
      rw [String.toList_ofList, String.toList_ofList, List.filter_append, filter_unitChars, hsign]

theorem number_real_exact_eighth : (0.125 : Float).isFinite = true ∧ 2 ≤ 4 ∧
    ∃ p : Parts, p.Writes true 2 13 ∧
      number (.number (.real 0.125)) 2 true = .ok (String.ofList p.chars) := by
  have hx : (0.125 : Float).isFinite = true := by decide +kernel
  have htext : Quantity.ofText? (floatText 0.125) = some (.finite false ⟨125, -3⟩) := by
    decide +kernel
  obtain ⟨value, hvalue, units, hunits, -, hshown⟩ :=
    number_real_exact hx (show 2 ≤ 4 by decide) true
  rw [htext] at hvalue
  cases hvalue
  have hfloor : ⌊|(125 : ℚ) * 10 ^ (-3 : Int)| * 10 ^ 2 + 1 / 2⌋ = 13 := by norm_num
  obtain rfl : units = 13 := Int.natCast_inj.1 (hunits.trans hfloor)
  obtain ⟨p, hwrites, hok, -⟩ := hshown (by decide)
  rw [if_neg] at hok
  · exact ⟨hx, by decide, p, hwrites, hok⟩
  · rintro ⟨hneg, -⟩
    exact absurd hneg (not_lt.2 (Scaled.value_nonneg _))

end Display
end LedgerReport
