import Mathlib.Data.List.Basic
import LedgerReport.Proofs.Numeral
set_option autoImplicit false

namespace LedgerReport

namespace Text
variable {before cs after : List Char}

theorem strip_between {p : Char → Bool} (hb : ∀ c ∈ before, p c = true)
    (hc : ∀ c ∈ cs, p c = false) (ha : ∀ c ∈ after, p c = true) (hn : cs ≠ []) :
    strip p (before ++ cs ++ after) = cs := by
  have hstop : ∀ xs ys : List Char, xs ≠ [] → (∀ c ∈ xs, p c = false) →
      (xs ++ ys).dropWhile p = xs ++ ys := by
    intro xs ys hx hxs
    cases xs with
    | nil => exact absurd rfl hx
    | cons x xs => rw [List.cons_append, List.dropWhile_cons_of_neg (by simp [hxs x])]
  rw [strip, List.append_assoc, List.dropWhile_append_of_pos hb, hstop cs after hn hc,
    List.reverse_append, List.dropWhile_append_of_pos fun c h => ha c (List.mem_reverse.1 h)]
  have hback := hstop cs.reverse [] (by simpa using hn) fun c h => hc c (List.mem_reverse.1 h)
  rw [List.append_nil] at hback
  rw [hback, List.reverse_reverse]

theorem exists_strip (p : Char → Bool) (cs : List Char) :
    ∃ before after, cs = before ++ strip p cs ++ after ∧
      (∀ c ∈ before, p c = true) ∧ ∀ c ∈ after, p c = true := by
  have htaken : ∀ xs : List Char, ∀ c ∈ xs.takeWhile p, p c = true :=
    fun xs => List.all_eq_true.1 List.all_takeWhile
  refine ⟨cs.takeWhile p, ((cs.dropWhile p).reverse.takeWhile p).reverse, ?_,
    htaken cs, fun c hc => htaken _ c (List.mem_reverse.1 hc)⟩
  rw [strip, List.append_assoc, ← List.reverse_append, List.takeWhile_append_dropWhile,
    List.reverse_reverse, List.takeWhile_append_dropWhile]

end Text

namespace Numeral
open Text

/-- Whether characters are digits with these values, with single underscores between them. -/
inductive Row : List Char → List Nat → Prop where
  | last {c : Char} {d : Nat} : digitValue? c = some d → Row [c] [d]
  | next {c : Char} {d : Nat} {cs : List Char} {ds : List Nat} :
      digitValue? c = some d → Row cs ds → Row (c :: cs) (d :: ds)
  | spaced {c : Char} {d : Nat} {cs : List Char} {ds : List Nat} :
      digitValue? c = some d → Row cs ds → Row (c :: '_' :: cs) (d :: ds)

section
variable {cs : List Char} {ds : List Nat}

theorem Row.head (h : Row cs ds) : ∃ c r d, cs = c :: r ∧ digitValue? c = some d := by
  cases h with
  | last hc | next hc _ | spaced hc _ => exact ⟨_, _, _, rfl, hc⟩

theorem spanDigits_digit {c : Char} {d : Nat} (h : digitValue? c = some d) (cs : List Char)
    (afterDigit : Bool) : spanDigits afterDigit (c :: cs) =
      (d :: (spanDigits true cs).1, (spanDigits true cs).2) := by
  rw [spanDigits, h]
  rfl

theorem spanDigits_underscore (h : ∃ c r d, cs = c :: r ∧ digitValue? c = some d) :
    spanDigits true ('_' :: cs) = spanDigits false cs := by
  have hnone : digitValue? '_' = none := by decide
  obtain ⟨c, r, d, rfl, hc⟩ := h
  rw [spanDigits, hnone]
  exact if_pos ⟨rfl, rfl, by simp [hc]⟩

/-- Reading digits goes on at a digit, or at an underscore between two of them, and else stops. -/
theorem spanDigits_cases (afterDigit : Bool) (cs : List Char) :
    (∃ c r d, cs = c :: r ∧ digitValue? c = some d) ∨
      (afterDigit = true ∧ ∃ c r d, cs = '_' :: c :: r ∧ digitValue? c = some d) ∨
      spanDigits afterDigit cs = ([], cs) := by
  cases cs with
  | nil => exact .inr (.inr rfl)
  | cons c r =>
    cases hc : digitValue? c with
    | some d => exact .inl ⟨c, r, d, rfl, hc⟩
    | none =>
      by_cases hu : c = '_' ∧ afterDigit = true ∧ ((r.head?).bind digitValue?).isSome
      · obtain ⟨rfl, ha, hr⟩ := hu
        cases r with
        | nil => cases hr
        | cons c' r =>
          obtain ⟨d, hd⟩ := Option.isSome_iff_exists.1 hr
          exact .inr (.inl ⟨ha, c', r, d, rfl, hd⟩)
      · refine .inr (.inr ?_)
        rw [spanDigits, hc]
        exact if_neg hu

theorem Row.spanDigits (h : Row cs ds) (afterDigit : Bool) :
    Numeral.spanDigits afterDigit cs = (ds, []) := by
  induction h generalizing afterDigit with
  | last hc => rw [spanDigits_digit hc]; rfl
  | next hc _ ih => rw [spanDigits_digit hc, ih]
  | spaced hc hrow ih => rw [spanDigits_digit hc, spanDigits_underscore hrow.head, ih]

/-- Where reading digits leaves nothing, it has read a row, or one behind an underscore. -/
theorem row_of_spanDigits {afterDigit : Bool} (h : spanDigits afterDigit cs = (ds, [])) :
    cs = [] ∧ ds = [] ∨ Row cs ds ∨ afterDigit = true ∧ ∃ r, cs = '_' :: r ∧ Row r ds := by
  induction cs generalizing ds afterDigit with
  | nil => exact .inl ⟨rfl, (Prod.mk.inj h).1.symm⟩
  | cons c r ih =>
    obtain ⟨c, r, d, hcs, hc⟩ | ⟨ha, c, r, d, hcs, hc⟩ | hstop :=
      spanDigits_cases afterDigit (c :: r)
    · cases hcs
      cases hr : spanDigits true r with
      | mk es rest =>
        rw [spanDigits_digit hc, hr] at h
        cases h
        obtain ⟨rfl, rfl⟩ | hrow | ⟨-, r', rfl, hrow⟩ := ih hr
        · exact .inr (.inl (.last hc))
        · exact .inr (.inl (.next hc hrow))
        · exact .inr (.inl (.spaced hc hrow))
    · cases hcs
      rw [ha, spanDigits_underscore ⟨c, r, d, rfl, hc⟩] at h
      obtain ⟨hnil, -⟩ | hrow | ⟨hfalse, -⟩ := ih h
      · cases hnil
      · exact .inr (.inr ⟨ha, c :: r, rfl, hrow⟩)
      · cases hfalse
    · rw [hstop] at h
      cases (Prod.mk.inj h).2

theorem spanDigits_eq_iff : spanDigits false cs = (ds, []) ∧ ds ≠ [] ↔ Row cs ds := by
  constructor
  · rintro ⟨h, hn⟩
    obtain ⟨-, hnil⟩ | hrow | ⟨hfalse, -⟩ := row_of_spanDigits h
    · exact absurd hnil hn
    · exact hrow
    · cases hfalse
  · intro h
    exact ⟨h.spanDigits false, by cases h <;> simp⟩

end

inductive Signed : List Char → Bool × List Nat → Prop where
  | plain {cs : List Char} {ds : List Nat} : Row cs ds → Signed cs (false, ds)
  | plus {cs : List Char} {ds : List Nat} : Row cs ds → Signed ('+' :: cs) (false, ds)
  | minus {cs : List Char} {ds : List Nat} : Row cs ds → Signed ('-' :: cs) (true, ds)

/-- Whether a text writes a whole number, with padding around it, in no more digits than are
read. -/
def Writes (s : String) (n : Int) : Prop :=
  ∃ before cs after p, s.toList = before ++ cs ++ after ∧ Signed cs p ∧
    p.2.length ≤ digitLimit ∧ ofSignedDigits p = n ∧
    (∀ c ∈ before, isPadding c = true) ∧ ∀ c ∈ after, isPadding c = true

section
variable {cs : List Char} {p : Bool × List Nat}

theorem Signed.isPadding_eq_false (h : Signed cs p) : ∀ c ∈ cs, isPadding c = false := by
  have hrow : ∀ {cs : List Char} {ds : List Nat}, Row cs ds → ∀ c ∈ cs, isPadding c = false := by
    intro cs ds h
    have hdigit : ∀ {c : Char} {d : Nat}, digitValue? c = some d → isPadding c = false :=
      fun hc => isPadding_of_not_blank
        (isBlank_of_isDecimalDigit (by simp [isDecimalDigit, hc]))
    induction h with
    | last hc => simpa using hdigit hc
    | next hc _ ih => simpa using ⟨hdigit hc, ih⟩
    | spaced hc _ ih => simpa using ⟨hdigit hc, by decide, ih⟩
  cases h with
  | plain h => exact hrow h
  | plus h | minus h => exact List.forall_mem_cons.2 ⟨by decide, hrow h⟩

theorem Signed.ne_nil (h : Signed cs p) : cs ≠ [] := by
  cases h with
  | plain h =>
    obtain ⟨c, r, d, rfl, -⟩ := h.head
    simp
  | plus h | minus h => simp

theorem splitSign_cases (cs : List Char) :
    (∃ r, cs = '-' :: r ∧ splitSign cs = (true, r)) ∨
      (∃ r, cs = '+' :: r ∧ splitSign cs = (false, r)) ∨ splitSign cs = (false, cs) := by
  unfold splitSign
  split
  · exact .inl ⟨_, rfl, rfl⟩
  · exact .inr (.inl ⟨_, rfl, rfl⟩)
  · exact .inr (.inr rfl)

theorem signedDigits?_of_row {cs body : List Char} {ds : List Nat} {negative : Bool}
    (hs : splitSign cs = (negative, body)) (h : Row body ds) :
    signedDigits? cs = some (negative, ds) := by
  obtain ⟨hspan, hn⟩ := spanDigits_eq_iff.2 h
  obtain ⟨d, ds, rfl⟩ := List.exists_cons_of_ne_nil hn
  simp only [signedDigits?, hs, hspan]

theorem signedDigits?_eq_some_iff : signedDigits? cs = some p ↔ Signed cs p := by
  constructor
  · intro h
    cases hspan : spanDigits false (splitSign cs).2 with
    | mk ds rest =>
      simp only [signedDigits?, hspan] at h
      cases ds with
      | nil => cases h
      | cons d ds =>
        cases rest with
        | cons c rest => cases h
        | nil =>
          cases h
          have hrow : Row (splitSign cs).2 (d :: ds) := spanDigits_eq_iff.1 ⟨hspan, by simp⟩
          obtain ⟨r, rfl, hs⟩ | ⟨r, rfl, hs⟩ | hs := splitSign_cases cs
          all_goals rw [hs] at hrow ⊢
          · exact .minus hrow
          · exact .plus hrow
          · exact .plain hrow
  · intro h
    cases h with
    | plain h =>
      obtain ⟨c, r, d, rfl, hc⟩ := h.head
      have hdigit : isDecimalDigit c = true := by simp [isDecimalDigit, hc]
      exact signedDigits?_of_row (splitSign_of_ne (ne_of_isDecimalDigit hdigit (by decide))
        (ne_of_isDecimalDigit hdigit (by decide))) h
    | plus h => exact signedDigits?_of_row rfl h
    | minus h => exact signedDigits?_of_row rfl h

end

/-- The texts that write whole numbers are read as these numbers, and no other texts are read. -/
theorem readWhole?_eq_some_iff {s : String} {n : Int} : readWhole? s = some n ↔ Writes s n := by
  have hread : readWhole? s = some n ↔ ∃ p, Signed (unpadded s.toList) p ∧
      p.2.length ≤ digitLimit ∧ ofSignedDigits p = n := by
    simp [readWhole?, Option.bind_eq_some_iff, signedDigits?_eq_some_iff]
  rw [hread]
  constructor
  · rintro ⟨p, h, hl, hn⟩
    obtain ⟨before, after, hs, hb, ha⟩ := exists_strip isPadding s.toList
    exact ⟨before, _, after, p, hs, h, hl, hn, hb, ha⟩
  · rintro ⟨before, cs, after, p, hs, h, hl, hn, hb, ha⟩
    refine ⟨p, ?_, hl, hn⟩
    rwa [hs, unpadded, strip_between hb h.isPadding_eq_false ha h.ne_nil]

end Numeral
end LedgerReport
