import LedgerReport.Proofs.Decimal.Exact
import LedgerReport.Proofs.Decimal.Reading
import LedgerReport.Proofs.Movement.Normal
set_option autoImplicit false

namespace LedgerReport
open Decimal Numeral Text

def IsCode (s : String) : Prop := s.toList ≠ [] ∧ ∀ c ∈ s.toList, c.isDigit = true

def throughNumber (s : String) : Value :=
  match readReal? s with
  | some x => (Value.real x).recordText
  | none => .text s

/-- Whether a code is the numeral of a whole number that is a floating-point value. -/
def IsStable (s : String) : Prop := ∃ n : Nat, s = toString n ∧ IsExact n

theorem toList_toString (n : Nat) : (toString n).toList = digitChars n := by
  simp [digitChars, toString, Nat.repr]

theorem IsCode.areDigits {s : String} (h : IsCode s) : AreDigits s.toList :=
  areDigits_of_isDigit h.2

theorem IsCode.readWord?_eq_none {s : String} (h : IsCode s) : readWord? s.toList = none := by
  have hlower : s.toList.map Char.toLower = s.toList := by
    rw [List.map_congr_left fun c hc => toLower_of_isDigit (h.2 c hc), List.map_id']
  have hword : ∀ word : String, word.toList.all Char.isDigit = false → s.toList ≠ word.toList := by
    intro word hw hs
    rw [← hs, List.all_eq_true.2 h.2] at hw
    cases hw
  simp only [readWord?, hlower]
  rw [if_neg (not_or.2 ⟨hword _ (by decide), hword _ (by decide)⟩), if_neg (hword _ (by decide))]

theorem IsCode.readReal?_eq {s : String} (h : IsCode s) :
    readReal? s = some (nearestDecimal (digitsValue s.toList) 0) := by
  have hdecimal : IsDecimal s.toList := ⟨_, h.areDigits, .inl ⟨rfl, h.1⟩⟩
  simp only [readReal?, unpadded_of_not_blank hdecimal.isBlank_eq_false, hdecimal.splitSign_eq,
    h.readWord?_eq_none, readDecimal?_digits h.areDigits h.1]
  simp [signed]

theorem digitChars_length_le {n : Nat} (h : IsExact n) : (digitChars n).length ≤ 400 := by
  obtain ⟨m, q, hm, hq, rfl⟩ := h
  have hpow : m * 2 ^ q < 2 ^ (53 + q) := by
    rw [Nat.pow_add]
    exact Nat.mul_lt_mul_of_pos_right hm (Nat.two_pow_pos q)
  have hten : ∀ e : Nat, 400 ≤ e → m * 2 ^ q < 10 ^ e := by
    intro e he
    calc m * 2 ^ q < 2 ^ (53 + q) := hpow
      _ ≤ 2 ^ (3 * e) := Nat.pow_le_pow_right (by omega) (by omega)
      _ = (2 ^ 3) ^ e := Nat.pow_mul 2 3 e
      _ ≤ 10 ^ e := Nat.pow_le_pow_left (by decide) e
  exact Nat.toDigits_length 10 _ 400 (by omega) (hten 400 (by omega))

theorem nearestDecimal_of_isExact {n : Nat} (h : IsExact n) : nearestDecimal n 0 = nearest n 1 := by
  have hlength := digitChars_length_le h
  rw [digitChars] at hlength
  have hone : tenTo (0 : Int).toNat = 1 := rfl
  unfold nearestDecimal
  by_cases hn : n = 0
  · rw [if_pos hn, nearest, if_pos hn]
  · dsimp only
    rw [if_neg hn, if_neg (by omega), if_neg (by omega), Int.neg_zero, hone, Nat.mul_one]

theorem whole?_nearestDecimal_iff {n : Nat} :
    (Number.real (nearestDecimal n 0)).whole? = some (n : Int) ↔ IsExact n := by
  constructor
  · exact isExact_of_whole?
  · intro h
    rw [nearestDecimal_of_isExact h]
    exact whole?_nearest h

theorem throughNumber_eq_iff {s : String} (h : IsCode s) :
    throughNumber s = .text s ↔ IsStable s := by
  have hthrough : throughNumber s =
      (Value.number (.real (nearestDecimal (digitsValue s.toList) 0))).recordText := by
    rw [throughNumber, h.readReal?_eq]
    rfl
  rw [hthrough]
  constructor
  · intro hs
    generalize nearestDecimal (digitsValue s.toList) 0 = x at hs
    have hgiven : Value.isMissing (.number (.real x)) = false := by
      rw [Bool.eq_false_iff]
      intro hm
      rw [Value.recordText_of_isMissing hm] at hs
      cases hs
    cases hw : (Number.real x).whole? with
    | some n =>
      rw [Value.recordText_number (Number.same_whole_iff.2 hw), Value.text.injEq] at hs
      cases n with
      | ofNat n => exact ⟨n, hs.symm, isExact_of_whole? hw⟩
      | negSucc n =>
        have hminus : '-' ∈ s.toList := by
          have hchars : (toString (Int.negSucc n)).toList = '-' :: Nat.toDigits 10 (n + 1) :=
            ofWhole_negSucc n
          rw [← hs, hchars]
          exact List.mem_cons_self
        cases h.2 _ hminus
    | none =>
      have htext : floatText x = s := by
        simpa [Value.recordText, hgiven, hw, Value.display, Value.quoted, Number.text] using hs
      obtain ⟨c, hc, hmark⟩ := exists_mark (Binary.ofFloat x)
      have hdigit : c.isDigit = true := h.2 c (by rwa [← htext, floatText, String.toList_ofList])
      rcases hmark with rfl | rfl | rfl <;> cases hdigit
  · rintro ⟨n, rfl, hn⟩
    rw [toList_toString, digitsValue_digitChars]
    exact Value.recordText_number (Number.same_whole_iff.2 (whole?_nearestDecimal_iff.2 hn))

end LedgerReport
