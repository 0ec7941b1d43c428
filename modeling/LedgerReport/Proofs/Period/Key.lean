import LedgerReport.Period
set_option autoImplicit false

namespace LedgerReport

namespace Text

def ofWhole (n : Int) : List Char := (toString n).toList

theorem ofWhole_ofNat (n : Nat) : ofWhole (.ofNat n) = Nat.toDigits 10 n := by
  simp [ofWhole, toString, Int.repr, Nat.repr]

theorem ofWhole_negSucc (n : Nat) : ofWhole (.negSucc n) = '-' :: Nat.toDigits 10 (n + 1) := by
  simp [ofWhole, toString, Int.repr, Nat.repr]

theorem toDigits_injective {m n : Nat} (h : Nat.toDigits 10 m = Nat.toDigits 10 n) : m = n := by
  have hm := Nat.ofDigitChars_toDigits (n := m) (show 1 < 10 by omega) (show 10 ≤ 10 by omega)
  rw [← hm, h, Nat.ofDigitChars_toDigits (by omega) (by omega)]

theorem isDigit_of_mem_toDigits {n : Nat} : ∀ c ∈ Nat.toDigits 10 n, c.isDigit = true :=
  fun _ hc => Nat.isDigit_of_mem_toDigits (by omega) (by omega) hc

theorem toDigits_ne_minus {n : Nat} {c : Char} {rest rest' : List Char} :
    Nat.toDigits 10 n ++ c :: rest ≠ '-' :: rest' := by
  intro h
  cases hd : Nat.toDigits 10 n with
  | nil => exact Nat.toDigits_ne_nil hd
  | cons a l =>
    have ha : a.isDigit = true := isDigit_of_mem_toDigits (n := n) a (by simp [hd])
    rw [hd, List.cons_append, List.cons.injEq] at h
    rw [h.1] at ha
    cases ha

theorem append_cons_inj {p : Char → Bool} {xs ys rest rest' : List Char} {c c' : Char}
    (hx : ∀ a ∈ xs, p a = true) (hy : ∀ a ∈ ys, p a = true) (hc : p c = false)
    (hc' : p c' = false) (h : xs ++ c :: rest = ys ++ c' :: rest') :
    xs = ys ∧ c :: rest = c' :: rest' := by
  induction xs generalizing ys with
  | nil =>
    cases ys with
    | nil => exact ⟨rfl, h⟩
    | cons y ys =>
      rw [List.nil_append, List.cons_append, List.cons.injEq] at h
      rw [h.1, hy y (by simp)] at hc
      cases hc
  | cons x xs ih =>
    cases ys with
    | nil =>
      rw [List.nil_append, List.cons_append, List.cons.injEq] at h
      rw [← h.1, hx x (by simp)] at hc'
      cases hc'
    | cons y ys =>
      rw [List.cons_append, List.cons_append, List.cons.injEq] at h
      obtain ⟨hxs, hrest⟩ := ih (fun a ha => hx a (by simp [ha]))
        (fun a ha => hy a (by simp [ha])) h.2
      exact ⟨by rw [h.1, hxs], hrest⟩

theorem ofWhole_append_inj {m n : Int} {c : Char} {rest rest' : List Char}
    (hc : c.isDigit = false) (h : ofWhole m ++ c :: rest = ofWhole n ++ c :: rest') :
    m = n ∧ rest = rest' := by
  cases m with
  | ofNat m =>
    cases n with
    | ofNat n =>
      rw [ofWhole_ofNat, ofWhole_ofNat] at h
      obtain ⟨hd, hr⟩ := append_cons_inj isDigit_of_mem_toDigits isDigit_of_mem_toDigits hc hc h
      exact ⟨congrArg Int.ofNat (toDigits_injective hd), (List.cons.inj hr).2⟩
    | negSucc n =>
      rw [ofWhole_ofNat, ofWhole_negSucc, List.cons_append] at h
      exact absurd h toDigits_ne_minus
  | negSucc m =>
    cases n with
    | ofNat n =>
      rw [ofWhole_ofNat, ofWhole_negSucc, List.cons_append] at h
      exact absurd h.symm toDigits_ne_minus
    | negSucc n =>
      rw [ofWhole_negSucc, ofWhole_negSucc, List.cons_append, List.cons_append] at h
      obtain ⟨hd, hr⟩ := append_cons_inj isDigit_of_mem_toDigits isDigit_of_mem_toDigits hc hc
        (List.cons.inj h).2
      have := toDigits_injective hd
      exact ⟨congrArg Int.negSucc (by omega), (List.cons.inj hr).2⟩

theorem ofWhole_injective {m n : Int} (h : ofWhole m = ofWhole n) : m = n := by
  have h' : ofWhole m ++ [','] = ofWhole n ++ [','] := by rw [h]
  exact (ofWhole_append_inj (by decide) h').1

end Text

namespace YearPeriod
open Text

def keyChars (p : YearPeriod) : List Char := ofWhole p.year ++ '-' :: ofWhole p.period

theorem keyChars_append_inj {p q : YearPeriod} {rest rest' : List Char}
    (h : p.keyChars ++ ',' :: rest = q.keyChars ++ ',' :: rest') : p = q ∧ rest = rest' := by
  unfold keyChars at h
  rw [List.append_assoc, List.append_assoc, List.cons_append, List.cons_append] at h
  obtain ⟨hy, h⟩ := ofWhole_append_inj (by decide) h
  obtain ⟨hp, h⟩ := ofWhole_append_inj (by decide) h
  cases p
  cases q
  simp_all

theorem flatMap_keyChars_inj {ps qs : List YearPeriod}
    (h : ps.flatMap (fun p => p.keyChars ++ [',']) = qs.flatMap (fun p => p.keyChars ++ [','])) :
    ps = qs := by
  induction ps generalizing qs with
  | nil =>
    cases qs with
    | nil => rfl
    | cons q qs => simp at h
  | cons p ps ih =>
    cases qs with
    | nil => simp at h
    | cons q qs =>
      simp only [List.flatMap_cons, List.append_assoc, List.singleton_append] at h
      obtain ⟨rfl, hrest⟩ := keyChars_append_inj h
      rw [ih hrest]

end YearPeriod

namespace Text

/-- Parts with a comma between them are parts with a comma behind each, but for the last one. -/
theorem intercalate_append {parts : List (List Char)} (h : parts ≠ []) :
    [','].intercalate parts ++ [','] = parts.flatMap (· ++ [',']) := by
  induction parts with
  | nil => exact absurd rfl h
  | cons part parts ih =>
    cases parts with
    | nil => simp [List.intercalate]
    | cons other parts =>
      rw [List.flatMap_cons, ← ih (by simp)]
      simp [List.intercalate]

end Text

namespace Selector
open Text

/-- Whether two selections are of one kind and cover the same periods; windows may have different
names. -/
def Same : Selector → Selector → Prop
  | year y, year z => y = z
  | toDate y m, toDate z n => y = z ∧ m = n
  | window w, window u => w.periods = u.periods
  | _, _ => False

theorem toList_keyText_window (w : Window) : (keyText (window w)).toList =
    "rolling:".toList ++ [','].intercalate (w.periods.map YearPeriod.keyChars) := by
  simp only [keyText, String.toList_append, String.toList_intercalate, List.map_map]
  congr 2
  refine List.map_congr_left fun p _ => ?_
  simp [YearPeriod.keyChars, ofWhole]

theorem toList_keyText_toDate (y m : Int) :
    (keyText (toDate y m)).toList = "ytd:".toList ++ (ofWhole y ++ ':' :: ofWhole m) := by
  simp [keyText, ofWhole]

theorem toList_keyText_year (y : Int) : (keyText (year y)).toList = "all:".toList ++ ofWhole y := by
  simp [keyText, ofWhole]

theorem same_of_keyText {s t : Selector} (h : s.keyText = t.keyText) : s.Same t := by
  have hl := congrArg String.toList h
  cases s with
  | year y =>
    cases t with
    | year z =>
      rw [toList_keyText_year, toList_keyText_year] at hl
      exact ofWhole_injective (List.append_cancel_left hl)
    | toDate z n =>
      rw [toList_keyText_year, toList_keyText_toDate] at hl
      simp at hl
    | window u =>
      rw [toList_keyText_year, toList_keyText_window] at hl
      simp at hl
  | toDate y m =>
    cases t with
    | year z =>
      rw [toList_keyText_year, toList_keyText_toDate] at hl
      simp at hl
    | toDate z n =>
      rw [toList_keyText_toDate, toList_keyText_toDate] at hl
      obtain ⟨hy, hm⟩ := ofWhole_append_inj (by decide) (List.append_cancel_left hl)
      exact ⟨hy, ofWhole_injective hm⟩
    | window u =>
      rw [toList_keyText_toDate, toList_keyText_window] at hl
      simp at hl
  | window w =>
    cases t with
    | year z =>
      rw [toList_keyText_year, toList_keyText_window] at hl
      simp at hl
    | toDate z n =>
      rw [toList_keyText_toDate, toList_keyText_window] at hl
      simp at hl
    | window u =>
      rw [toList_keyText_window, toList_keyText_window] at hl
      have hp := List.append_cancel_left hl
      rw [← List.append_left_inj [',']] at hp
      rw [intercalate_append (by simpa using w.nonempty),
        intercalate_append (by simpa using u.nonempty), List.flatMap_map, List.flatMap_map] at hp
      exact YearPeriod.flatMap_keyChars_inj hp

end Selector
end LedgerReport
