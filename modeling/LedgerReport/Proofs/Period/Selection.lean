import LedgerReport.Proofs.Period.Key
set_option autoImplicit false

namespace LedgerReport

/-- Whether an error tells that a window reaches beyond the data. -/
def Error.IsShortfall (e : Error) : Prop :=
  ∃ label expected present, e = .insufficientPeriods label expected present

namespace Selector
variable {s t : Selector} {policy : Policy} {d d' : Dataset}

/-- The failure of a selection that reaches beyond the data, under the strict policy. -/
def shortfall? (s : Selector) (policy : Policy) (d : Dataset) : Option Error :=
  match s, policy with
  | window w, .strict =>
    if w.present d.periods < w.periods.length then
      some (.insufficientPeriods s.label w.periods.length (w.present d.periods))
    else none
  | _, _ => none

theorem of_shortfall? {e : Error} (h : s.shortfall? policy d = some e) :
    policy = .strict ∧ e.IsShortfall := by
  cases s with
  | year y => cases h
  | toDate y m => cases h
  | window w =>
    cases policy with
    | takePart => cases h
    | strict =>
      simp only [shortfall?] at h
      split at h
      · cases h
        exact ⟨rfl, _, _, _, rfl⟩
      · cases h

theorem restrict_eq_error {e : Error} (h : s.shortfall? policy d = some e) :
    (s.restrict policy d).outcome = .error e := by
  cases s with
  | year y => cases h
  | toDate y m => cases h
  | window w =>
    cases policy with
    | takePart => cases h
    | strict =>
      simp only [shortfall?] at h
      split at h
      · rename_i hp
        cases h
        simp [restrict, hp, bind]
      · cases h

theorem restrict_eq_ok (h : s.shortfall? policy d = none) :
    (s.restrict policy d).outcome = .ok (s.select d) := by
  cases s with
  | year y => rfl
  | toDate y m => rfl
  | window w =>
    unfold restrict
    by_cases hp : w.present d.periods < w.periods.length
    · cases policy with
      | takePart => simp [hp, bind]
      | strict => simp [shortfall?, hp] at h
    · simp [hp]

theorem restrict_eq_ok_iff {ms : List Movement} : (s.restrict policy d).outcome = .ok ms ↔
    s.shortfall? policy d = none ∧ ms = s.select d := by
  cases h : s.shortfall? policy d with
  | some e => simp [restrict_eq_error h]
  | none => simp [restrict_eq_ok h, eq_comm]

theorem Same.contains_eq (h : s.Same t) (p : YearPeriod) : s.contains p = t.contains p := by
  cases s <;> cases t <;> simp_all [Same, contains]

theorem Same.select_eq (h : s.Same t) (hd : d.movements = d'.movements) :
    s.select d = t.select d' := by
  unfold select
  rw [hd]
  exact List.filter_congr fun m _ => h.contains_eq m.yearPeriod

theorem Same.shortfall?_eq_none (h : s.Same t) (hd : d.movements = d'.movements)
    (hs : s.shortfall? policy d = none) : t.shortfall? policy d' = none := by
  have hp : d.periods = d'.periods := by rw [Dataset.periods, Dataset.periods, hd]
  cases t with
  | year z => rfl
  | toDate z n => rfl
  | window u =>
    cases s with
    | year y => cases h
    | toDate y m => cases h
    | window w =>
      have hw : w.periods = u.periods := h
      have hpresent : u.present d'.periods = w.present d.periods := by
        simp only [Window.present, hw, hp]
      cases policy with
      | takePart => rfl
      | strict =>
        simp only [shortfall?] at hs ⊢
        split at hs
        · cases hs
        · rename_i hn
          exact if_neg (by rw [hpresent, ← hw]; exact hn)

/-- Selections of the same periods give the same movements, as soon as one of them gives any. -/
theorem Same.restrict_eq_ok (h : s.Same t) (hd : d.movements = d'.movements) {ms : List Movement}
    (hr : (s.restrict policy d).outcome = .ok ms) : (t.restrict policy d').outcome = .ok ms := by
  obtain ⟨hs, rfl⟩ := restrict_eq_ok_iff.1 hr
  exact restrict_eq_ok_iff.2 ⟨h.shortfall?_eq_none hd hs, h.select_eq hd⟩

end Selector
end LedgerReport
