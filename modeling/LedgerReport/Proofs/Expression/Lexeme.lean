import LedgerReport.Expression.Token
import LedgerReport.Proofs.Numeral
set_option autoImplicit false

namespace LedgerReport
open Text Numeral

def TokenKind.Admits (chars : List Char) : TokenKind → Prop
  | .number => IsDecimal chars
  | .order => ∃ ds, chars = '@' :: ds ∧ AreDigits ds ∧ ds ≠ []
  | .name => ∃ c r, chars = c :: r ∧ Token.isNameStart c = true ∧
      ∀ d ∈ r, Token.isNameChar d = true
  | .operator => ∃ c, chars = [c] ∧ Token.isOperator c = true
  | .opening => chars = ['(']
  | .closing => chars = [')']

namespace Token

theorem areDigits_splitDigits (cs : List Char) : AreDigits (splitDigits cs).1 :=
  fun _ hc => List.all_eq_true.1 List.all_takeWhile _ hc

theorem areDigits_of_splitDigits {cs ds rest : List Char} (h : splitDigits cs = (ds, rest)) :
    AreDigits ds := by
  have hd := areDigits_splitDigits cs
  rwa [h] at hd

theorem isDecimal_splitFraction {ds : List Char} (hd : AreDigits ds) (hn : ds ≠ [])
    (cs : List Char) : IsDecimal (ds ++ (splitFraction cs).1) := by
  unfold splitFraction
  split
  · rename_i r
    split
    · exact ⟨ds, hd, .inl ⟨by simp, hn⟩⟩
    · rename_i es rest he hs
      exact ⟨ds, hd, .inr ⟨es, areDigits_of_splitDigits hs, he, rfl⟩⟩
  · exact ⟨ds, hd, .inl ⟨by simp, hn⟩⟩

theorem admits_of_lexeme? {cs chars rest : List Char} {kind : TokenKind}
    (h : lexeme? cs = some (some kind, chars, rest)) : kind.Admits chars := by
  cases cs with
  | nil => cases h
  | cons c r =>
    simp only [lexeme?] at h
    -- the tests for the first character, in their order
    split at h
    · cases h
    split at h
    · rename_i hc
      cases h
      have hd : AreDigits (c :: (splitDigits r).1) := by
        intro x hx
        rcases List.mem_cons.1 hx with rfl | hx
        · exact hc
        · exact areDigits_splitDigits r x hx
      exact isDecimal_splitFraction hd (by simp) _
    split at h
    · rename_i hpoint
      split at h
      · cases h
      · rename_i ds rest' hn hs
        cases h
        exact ⟨[], areDigits_nil, .inr ⟨ds, areDigits_of_splitDigits hs, hn, by rw [hpoint]; rfl⟩⟩
    split at h
    · rename_i hsign
      split at h
      · cases h
      · rename_i ds rest' hn hs
        cases h
        exact ⟨ds, by rw [hsign], areDigits_of_splitDigits hs, hn⟩
    split at h
    · rename_i hc
      cases h
      exact ⟨c, _, rfl, hc, fun d hd => List.all_eq_true.1 List.all_takeWhile d hd⟩
    split at h
    · rename_i hc
      cases h
      exact ⟨c, rfl, hc⟩
    split at h
    · rename_i hc
      cases h
      exact congrArg (fun c => [c]) hc
    split at h
    · rename_i hc
      cases h
      exact congrArg (fun c => [c]) hc
    · cases h

theorem scan_of_lexeme? {position : Nat} {cs chars rest : List Char} {kind : Option TokenKind}
    (h : lexeme? cs = some (kind, chars, rest)) : scan position cs =
      (scan (position + chars.length) rest).map fun tokens =>
        (kind.map fun k => ⟨k, chars, position⟩).toList ++ tokens := by
  rw [scan.eq_def]
  split
  · rename_i hn
    rw [h] at hn
    cases hn
  · rename_i hs
    rw [h] at hs
    cases hs
    cases kind <;> cases scan (position + chars.length) rest <;> rfl

/-- The tokens of a text are that of its first lexeme, if it leaves one, and those of the rest. -/
theorem scan_eq_ok {position : Nat} {cs chars rest : List Char} {kind : Option TokenKind}
    {tokens : List Token} (hl : lexeme? cs = some (kind, chars, rest))
    (h : scan position cs = .ok tokens) : ∃ later, scan (position + chars.length) rest = .ok later ∧
      tokens = (kind.map fun k => ⟨k, chars, position⟩).toList ++ later := by
  rw [scan_of_lexeme? hl] at h
  cases hs : scan (position + chars.length) rest with
  | error e =>
    rw [hs] at h
    cases h
  | ok later =>
    rw [hs] at h
    exact ⟨later, rfl, (Except.ok.inj h).symm⟩

theorem scan_stop {position : Nat} {c : Char} {r : List Char} (h : lexeme? (c :: r) = none) :
    scan position (c :: r) = .error (position, c) := by
  rw [scan.eq_def]
  split
  · rfl
  · rename_i hsome
    rw [h] at hsome
    cases hsome

/-- What holds of the end of a text, and goes over from what follows a lexeme to what starts with
it, holds wherever tokens are scanned. -/
theorem scan_induction {motive : Nat → List Char → List Token → Prop}
    (nil : ∀ position, motive position [] [])
    (lexeme : ∀ position kind chars rest later,
      lexeme? (chars ++ rest) = some (kind, chars, rest) →
        motive (position + chars.length) rest later →
          motive position (chars ++ rest)
            ((kind.map fun k => ⟨k, chars, position⟩).toList ++ later))
    {position : Nat} {cs : List Char} {tokens : List Token}
    (h : scan position cs = .ok tokens) : motive position cs tokens := by
  induction position, cs using scan.induct generalizing tokens with
  | case1 position hl =>
    rw [scan.eq_def] at h
    cases h
    exact nil position
  | case2 position c r hl =>
    rw [scan_stop hl] at h
    cases h
  | case3 position cs kind chars rest hl ih =>
    obtain rfl := lexeme?_append hl
    obtain ⟨later, hs, rfl⟩ := scan_eq_ok hl h
    exact lexeme position kind chars rest later hl (ih hs)

theorem admits_of_mem_scan {position : Nat} {cs : List Char} {tokens : List Token}
    (h : scan position cs = .ok tokens) : ∀ t ∈ tokens, t.kind.Admits t.chars := by
  refine scan_induction (motive := fun _ _ tokens => ∀ t ∈ tokens, t.kind.Admits t.chars)
    (fun _ => List.forall_mem_nil _) ?_ h
  intro position kind chars rest later hl ih t ht
  rcases List.mem_append.1 ht with ht | ht
  · obtain ⟨k, rfl, rfl⟩ := Option.map_eq_some_iff.1 (Option.mem_toList.1 ht)
    exact admits_of_lexeme? hl
  · exact ih t ht

def digits (t : Token) : List Char := t.chars.drop 1

def overlong? (t : Token) : Option String :=
  if t.kind = .order ∧ digitLimit < t.digits.length then some (String.ofList t.digits) else none

theorem overlong?_of_kind {t : Token} (h : t.kind ≠ .order) : t.overlong? = none :=
  if_neg fun hk => h hk.1

structure IsLegible (t : Token) : Prop where
  number : t.kind = .number → ∃ x, readReal? t.text = some x
  order : t.kind = .order → AreDigits t.digits ∧ t.digits ≠ []

theorem IsLegible.readWhole?_digits {t : Token} (h : t.IsLegible) (hk : t.kind = .order)
    (hs : t.overlong? = none) :
    readWhole? (String.ofList t.digits) = some (digitsValue t.digits : Int) := by
  obtain ⟨hd, hn⟩ := h.order hk
  have hlength : t.digits.length ≤ digitLimit := by
    unfold overlong? at hs
    split at hs
    · cases hs
    · rename_i hl
      exact Nat.not_lt.1 fun hlt => hl ⟨hk, hlt⟩
  rw [Numeral.readWhole?_digits hd hn, if_pos hlength]

theorem isLegible_of_admits {t : Token} (h : t.kind.Admits t.chars) : t.IsLegible where
  number hk := by
    rw [hk] at h
    exact h.readReal?_isSome
  order hk := by
    rw [hk] at h
    obtain ⟨ds, hc, hd, hn⟩ := h
    rw [digits, hc]
    exact ⟨hd, hn⟩

theorem isLegible_of_read {expression : String} {tokens : List Token}
    (h : read expression = .ok tokens) : ∀ t ∈ tokens, t.IsLegible := by
  unfold read at h
  split at h
  · rename_i ts hs
    cases h
    exact fun t ht => isLegible_of_admits (admits_of_mem_scan hs t ht)
  · cases h

end Token
end LedgerReport
