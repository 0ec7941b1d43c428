import LedgerReport.Proofs.Decimal.Fixed
import LedgerReport.Proofs.Report.Decoded
import LedgerReport.Proofs.Traversal
import LedgerReport.Statement.Engine
set_option autoImplicit false

namespace LedgerReport
open Decimal

namespace Display
variable {rules : FormattingRules} {f : FormatName} {a : Amount}

def places (rules : FormattingRules) : FormatName → Int
  | .integer => 0
  | f => (rules.rule f).decimals

def Fits (rules : FormattingRules) (f : FormatName) (a : Amount) : Prop :=
  ∀ n, a = some n → (Quantity.ofNumber n).Fits (places rules f)

theorem places_inBounds (hr : rules.InBounds) (f : FormatName) :
    0 ≤ places rules f ∧ places rules f ≤ 4 := by
  cases f with
  | integer => exact ⟨Int.le_refl 0, by simp [places]⟩
  | currency => exact hr .currency
  | percent => exact hr .percent
  | decimal => exact hr .decimal

theorem unitInRange (hr : rules.InBounds) (f : FormatName) : UnitInRange (places rules f) := by
  have h := places_inBounds hr f
  exact ⟨by omega, by omega⟩

theorem text_ok (hr : rules.InBounds) (h : Fits rules f a) :
    ∃ s, text rules (.ofAmount a) f = .ok s := by
  cases a with
  | none => exact ⟨"", rfl⟩
  | some n =>
    obtain ⟨cs, hcs⟩ := fixed_ok (rules.rule f).thousands (unitInRange hr f)
      (places_inBounds hr f).1 (h n rfl)
    have hq : quantity (.ofNumber n) (places rules f) (rules.rule f).thousands =
        .ok (String.ofList cs) := by
      simp only [quantity, hcs]
    cases f with
    | currency => exact ⟨_, congrArg (Except.map _) hq⟩
    | percent => exact ⟨_, congrArg (Except.map _) hq⟩
    | integer => exact ⟨_, hq⟩
    | decimal => exact ⟨_, hq⟩

theorem text_error (hr : rules.InBounds) (h : ¬ Fits rules f a) :
    text rules (.ofAmount a) f = .error .outOfRange := by
  cases a with
  | none => exact absurd (fun n hn => nomatch hn) h
  | some n =>
    have hn : ¬ (Quantity.ofNumber n).Fits (places rules f) := by
      intro hn
      refine h fun m hm => ?_
      cases hm
      exact hn
    have hq : quantity (.ofNumber n) (places rules f) (rules.rule f).thousands =
        .error .outOfRange := by
      simp only [quantity, fixed_error _ (unitInRange hr f) hn, faultError]
    cases f with
    | currency => exact congrArg (Except.map _) hq
    | percent => exact congrArg (Except.map _) hq
    | integer => exact hq
    | decimal => exact hq

theorem rulesOf_ok {symbol : String} {c p : Int} (hc : (0 ≤ c && c ≤ 4) = true)
    (hp : (0 ≤ p && p ≤ 4) = true) (hs : symbol.length ≤ 5) :
    ∃ rules, rulesOf symbol c p = .ok rules ∧ rules.InBounds := by
  simp only [rulesOf, hc, hp, hs, Bool.and_self, decide_true, if_true]
  refine ⟨_, rfl, fun f => ?_⟩
  cases f with
  | currency => simpa [FormattingRules.rule, FormatRule.InBounds] using hc
  | percent => simpa [FormattingRules.rule, FormatRule.InBounds] using hp
  | integer => exact FormattingRules.standard_inBounds .integer
  | decimal => exact FormattingRules.standard_inBounds .decimal

end Display

open Display

/-- Whether every value of a row that is shown has a text. -/
def Row.Fits (rules : FormattingRules) (compared : Bool) (r : Row) : Prop :=
  Display.Fits rules r.format r.value ∧
    (compared = true → Display.Fits rules r.format r.comparison ∧
      Display.Fits rules r.format r.change ∧ Display.Fits rules .percent r.changePercent)

namespace Display
variable {rules : FormattingRules} {compared : Bool} {r : Row}

theorem formatRow_ok (hr : rules.InBounds) (h : r.Fits rules compared) :
    ∃ shown, formatRow rules compared r = .ok shown := by
  obtain ⟨hv, hc⟩ := h
  obtain ⟨value, hv⟩ := text_ok hr hv
  unfold formatRow
  rw [hv]
  cases compared with
  | false => exact ⟨_, rfl⟩
  | true =>
    obtain ⟨hc, hd, hp⟩ := hc rfl
    obtain ⟨comparison, hc⟩ := text_ok hr hc
    obtain ⟨change, hd⟩ := text_ok hr hd
    obtain ⟨percent, hp⟩ := text_ok hr hp
    rw [hc, hd, hp]
    exact ⟨_, rfl⟩

theorem formatRow_error (hr : rules.InBounds) (h : ¬ r.Fits rules compared) :
    formatRow rules compared r = .error .outOfRange := by
  unfold formatRow
  by_cases hv : Display.Fits rules r.format r.value
  · obtain ⟨value, hvalue⟩ := text_ok hr hv
    rw [hvalue]
    cases compared with
    | false => exact absurd ⟨hv, fun hc => nomatch hc⟩ h
    | true =>
      by_cases hc : Display.Fits rules r.format r.comparison
      · obtain ⟨comparison, hcomparison⟩ := text_ok hr hc
        rw [hcomparison]
        by_cases hd : Display.Fits rules r.format r.change
        · obtain ⟨change, hchange⟩ := text_ok hr hd
          rw [hchange]
          have hp : ¬ Display.Fits rules .percent r.changePercent :=
            fun hp => h ⟨hv, fun _ => ⟨hc, hd, hp⟩⟩
          rw [text_error hr hp]
          rfl
        · rw [text_error hr hd]
          rfl
      · rw [text_error hr hc]
        rfl
  · rw [text_error hr hv]
    rfl

end Display

namespace Engine
variable {e : Engine} {r : Report} {comparison : Option Selector} {rows : List Row}

def rulesOf (e : Engine) (r : Report) : FormattingRules := r.formatting.getD e.rules

theorem rulesOf_inBounds (he : e.rules.InBounds) (hr : r.InBounds) :
    (e.rulesOf r).InBounds := by
  unfold rulesOf
  cases hf : r.formatting with
  | none => exact he
  | some rules => exact hr rules hf

theorem displayed_ok (hr : (e.rulesOf r).InBounds)
    (h : ∀ row ∈ rows, row.Fits (e.rulesOf r) comparison.isSome) :
    ∃ shown, e.displayed r comparison rows = .ok shown :=
  mapM_ok fun row hm => formatRow_ok hr (h row hm)

theorem displayed_error (hr : (e.rulesOf r).InBounds)
    (h : ∃ row ∈ rows, ¬ row.Fits (e.rulesOf r) comparison.isSome) :
    e.displayed r comparison rows = .error .outOfRange := by
  obtain ⟨pre, row, rest, rfl, hpre, hrow⟩ := exists_first h
  have hbefore : ∃ before, pre.mapM (formatRow (e.rulesOf r) comparison.isSome) = .ok before :=
    mapM_ok fun other hm => formatRow_ok hr (hpre other hm)
  obtain ⟨before, hbefore⟩ := hbefore
  change (pre ++ row :: rest).mapM (formatRow (e.rulesOf r) comparison.isSome) = _
  rw [List.mapM_append, List.mapM_cons, hbefore, formatRow_error hr hrow]
  rfl

end Engine
end LedgerReport
