import LedgerReport.Proofs.Statement.Display
import LedgerReport.Proofs.Statement.Pass
import LedgerReport.Proofs.Statement.Variables
import LedgerReport.Proofs.Statement.Variance
import LedgerReport.Proofs.Period.Selection
import LedgerReport.Statement.Session
set_option autoImplicit false

namespace LedgerReport
open Amount

/-- Whether the rules of a report that is given as such are in bounds. Those of a definition are
once it is read. -/
def Report.Given.InBounds : Report.Given → Prop
  | report r => r.InBounds
  | definition _ => True

theorem Report.Given.read_inBounds {given : Report.Given} {r : Report} (hg : given.InBounds)
    (hr : given.read = .ok r) : r.InBounds := by
  cases given with
  | report r' =>
    cases hr
    exact hg
  | definition v => exact ofDefinition_inBounds hr

/-- The failure of a request whose periods reach beyond the data, that of the base first. -/
def Request.shortfall? (q : Request) (policy : Policy) : Option Error :=
  (q.base.shortfall? policy q.dataset).or (q.comparison.bind fun s => s.shortfall? policy q.dataset)

theorem Request.of_shortfall? {q : Request} {policy : Policy} {error : Error}
    (h : q.shortfall? policy = some error) : policy = .strict ∧ error.IsShortfall := by
  rcases Option.or_eq_some_iff.1 h with hb | ⟨-, hc⟩
  · exact Selector.of_shortfall? hb
  · obtain ⟨s, -, hs⟩ := Option.bind_eq_some_iff.1 hc
    exact Selector.of_shortfall? hs

namespace Engine
variable {e : Engine} {r : Report} {d : Dataset} {s : Selector}

/-- The rows of a report that passes its checks, before they are displayed. -/
def unformatted (e : Engine) (r : Report) (q : Request) : Logged (List Row) := do
  let rows ← e.column r q.dataset q.base
  e.compared r q.dataset rows q.comparison

theorem answer_eq {q : Request} (hr : q.report.read = .ok r) (hc : r.check.outcome = .ok ()) :
    e.answer q = (e.unformatted r q).outcome >>= e.displayed r q.comparison := by
  rw [answer_of_read hr, hc]
  change (e.evaluateChecked r q.dataset q.base q.comparison).outcome = _
  unfold evaluateChecked unformatted
  simp only [Logged.outcome_bind, Logged.outcome_ofExcept]
  cases (e.column r q.dataset q.base).outcome <;> rfl

/-- What a step gives: an error if there is one that it must fail with, else a result with a
property. -/
def Gives {α : Type} (short : Option Error) (property : α → Prop) (x : Except Error α) : Prop :=
  match short with
  | some error => x = .error error
  | none => ∃ a, x = .ok a ∧ property a

theorem Gives.bind {α β : Type} {short short' : Option Error} {first : α → Prop}
    {second : β → Prop} {x : Except Error α} {f : α → Except Error β} (hx : Gives short first x)
    (hf : ∀ a, first a → Gives short' second (f a)) : Gives (short.or short') second (x >>= f) := by
  cases short with
  | some error =>
    cases hx
    rfl
  | none =>
    obtain ⟨a, rfl, ha⟩ := hx
    exact hf a ha

theorem restrict_gives (s : Selector) (policy : Policy) (d : Dataset) :
    Gives (s.shortfall? policy d) (· = s.select d) (s.restrict policy d).outcome := by
  cases hs : s.shortfall? policy d with
  | some error => exact Selector.restrict_eq_error hs
  | none => exact ⟨_, Selector.restrict_eq_ok hs, rfl⟩

theorem column_gives (h : r.Sound) (ha : r.Ascending) (s : Selector)
    (hm : ∀ m ∈ d.movements, m.amount.IsReal) :
    Gives (s.shortfall? e.resolver.policy d) (fun rows => ∀ row ∈ rows, row.value.IsReal)
      (e.column r d s).outcome := by
  unfold column
  rw [Logged.outcome_bind, ← Option.or_none (o := s.shortfall? e.resolver.policy d)]
  refine (restrict_gives s e.resolver.policy d).bind fun movements hs => ?_
  subst hs
  have hselected : ∀ m ∈ s.select d, m.amount.IsReal := fun m hs => hm m (List.mem_filter.1 hs).1
  obtain ⟨values, hvalues, hv⟩ := h.resolveAll_ok e.resolver hselected
  obtain ⟨v, -, hrows⟩ := h.exists_rows ha hv hselected
  rw [Logged.outcome_bind, hvalues]
  refine ⟨_, hrows, fun row hrow => ?_⟩
  obtain ⟨i, -, rfl⟩ := List.mem_map.1 hrow
  exact isReal_ofReal _

theorem unformatted_gives (h : r.Sound) (ha : r.Ascending) {q : Request}
    (hm : ∀ m ∈ q.dataset.movements, m.amount.IsReal) :
    Gives (q.shortfall? e.resolver.policy) (fun _ => True) (e.unformatted r q).outcome := by
  unfold unformatted
  rw [Logged.outcome_bind]
  refine (column_gives h ha q.base hm).bind fun rows hrows => ?_
  cases q.comparison with
  | none => exact ⟨rows, rfl, trivial⟩
  | some s =>
    rw [compared, Logged.outcome_bind]
    change Gives (s.shortfall? e.resolver.policy q.dataset) _ _
    rw [← Option.or_none (o := s.shortfall? e.resolver.policy q.dataset)]
    refine (column_gives h ha s hm).bind fun others hothers => ?_
    obtain ⟨compared, hc⟩ := Variance.apply_ok hrows hothers
    exact ⟨compared, hc, trivial⟩

theorem read_policy {name : String} (h : name = "partial" ∨ name = "strict") :
    ∃ policy, Policy.read (.text name) = .ok policy ∧ (policy = .strict → name = "strict") := by
  rcases h with rfl | rfl
  · exact ⟨.takePart, by cbv, nofun⟩
  · exact ⟨.strict, by cbv, fun _ => rfl⟩

theorem ofSettings_ok {s : Settings} (h : s.problems = []) :
    ∃ e, ofSettings s = .ok e ∧ e.rules.InBounds ∧
      (e.resolver.policy = .strict → s.windowPolicy = "strict") := by
  have hcheck : ∀ {good : Bool} {problem : String},
      (if good then [] else [problem]) = [] → good = true := by
    intro good problem hn
    cases good with
    | true => rfl
    | false => cases hn
  simp only [Settings.problems, List.append_eq_nil_iff] at h
  obtain ⟨⟨⟨⟨-, hp⟩, hc⟩, hd⟩, hs⟩ := h
  obtain ⟨policy, hpolicy, hstrict⟩ :=
    read_policy ((Bool.or_eq_true _ _ ▸ hcheck hp).imp eq_of_beq eq_of_beq)
  obtain ⟨rules, hrules, hbounds⟩ :=
    Display.rulesOf_ok (hcheck hc) (hcheck hd) (of_decide_eq_true (hcheck hs))
  refine ⟨⟨⟨max 1 s.workers, policy⟩, rules⟩, ?_, hbounds, hstrict⟩
  simp only [ofSettings, hpolicy, hrules, bind, Except.bind]
  rfl

/-- The answer for a report that passes its checks: under the strict policy, the failure of periods
that reach beyond the data; else the rows if all their values that are shown have a text, and an
error of the arithmetic of decimals if not. -/
theorem answer_shortfall_or_fits (s : Settings) (q : Request) (r : Report) (hs : s.problems = [])
    (hg : q.report.InBounds) (hr : q.report.read = .ok r) (hc : r.check.outcome = .ok ())
    (hm : ∀ m ∈ q.dataset.movements, m.amount.IsReal) :
    ∃ e, ofSettings s = .ok e ∧
      ((s.windowPolicy = "strict" ∧ ∃ error, error.IsShortfall ∧
          q.shortfall? e.resolver.policy = some error ∧ e.answer q = .error error) ∨
        q.shortfall? e.resolver.policy = none ∧
        ∃ rows, (e.unformatted r q).outcome = .ok rows ∧
          ((∀ row ∈ rows, row.Fits (e.rulesOf r) q.comparison.isSome) →
            ∃ shown, e.answer q = .ok shown) ∧
          ((∃ row ∈ rows, ¬ row.Fits (e.rulesOf r) q.comparison.isSome) →
            e.answer q = .error .outOfRange)) := by
  obtain ⟨e, he, hrules, hstrict⟩ := ofSettings_ok hs
  have hi := Report.issues_of_check hc
  have hbounds := rulesOf_inBounds hrules (Report.Given.read_inBounds hg hr)
  have hanswer := answer_eq (e := e) hr hc
  have hgives := unformatted_gives (e := e) (Report.sound_of_issues hi)
    ((Report.check_ok_iff hi).1 hc) hm
  refine ⟨e, he, ?_⟩
  cases hq : q.shortfall? e.resolver.policy with
  | some error =>
    obtain ⟨hp, hshort⟩ := Request.of_shortfall? hq
    rw [hq] at hgives
    refine .inl ⟨hstrict hp, error, hshort, rfl, ?_⟩
    rw [hanswer, hgives]
    rfl
  | none =>
    rw [hq] at hgives
    obtain ⟨rows, hrows, -⟩ := hgives
    rw [hrows] at hanswer
    refine .inr ⟨rfl, rows, hrows, fun hf => ?_, fun hf => ?_⟩
    · have hshown : ∃ shown, e.displayed r q.comparison rows = .ok shown := displayed_ok hbounds hf
      obtain ⟨shown, hshown⟩ := hshown
      exact ⟨shown, hanswer.trans hshown⟩
    · exact hanswer.trans (displayed_error hbounds hf)

def unset : Settings := ⟨1, 12, "partial", "€", 0, 1, none, "INFO"⟩

def plain : Engine := ⟨⟨1, .takePart⟩, .standard⟩

theorem ofSettings_unset : ofSettings unset = .ok plain := by cbv

def vault : Report where
  id := "vault"
  name := "Vault"
  version := "1.0.0"
  statement := .income
  description := none
  vars := []
  layout := [⟨10, some "Total", none, none, 0, .category []⟩]
  formatting := none

theorem check_vault : vault.check.outcome = .ok () := by cbv

def cash (x : Float) : Movement := .ofFields (some (.real x)) 2024 1 fun _ => .null

def deposit (x : Float) : Request := ⟨.report vault, ⟨[cash x], "ledger"⟩, .year 2024, none⟩

theorem deposit_inBounds (x : Float) : (deposit x).report.InBounds := fun _ h => nomatch h

theorem not_isShortfall_outOfRange : ¬ Error.IsShortfall .outOfRange := nofun

def depositRow (x : Float) : Row :=
  Row.ofItem ⟨10, some "Total", none, none, 0, .category []⟩ (ofReal (some (0.0 + x)))

theorem rows_vault (x : Float) : vault.rows [] [cash x] = .ok [depositRow x] := by
  have hi := Report.issues_of_check check_vault
  have hsol : Layout.Solves vault.sortedLayout [] [cash x] fun _ => some (0.0 + x) := by
    intro item hitem
    rw [List.mem_singleton.1 (Report.mem_sortedLayout.1 hitem)]
    exact ⟨[], rfl, Aggregate.apply_sum [some x]⟩
  have hsort : vault.sortedLayout = vault.layout := List.mergeSort_singleton _
  rw [(Report.sound_of_issues hi).rows_eq ((Report.check_ok_iff hi).1 check_vault) nofun hsol,
    hsort]
  rfl

theorem unformatted_deposit (x : Float) :
    (plain.unformatted vault (deposit x)).outcome = .ok [depositRow x] := by
  have hcolumn : (plain.column vault (deposit x).dataset (deposit x).base).outcome =
      .ok [depositRow x] := by
    unfold column
    rw [Logged.outcome_bind, Selector.restrict_eq_ok rfl]
    change (plain.resolver.resolveAll vault.measures [cash x] >>= fun values =>
      Logged.ofExcept (vault.rows values [cash x])).outcome = _
    rw [Logged.outcome_bind, Resolver.resolveAll_outcome]
    exact rows_vault x
  unfold unformatted
  rw [Logged.outcome_bind, hcolumn]
  rfl

theorem answer_deposit (x : Float) :
    plain.answer (deposit x) = plain.displayed vault none [depositRow x] := by
  rw [answer_eq rfl check_vault, unformatted_deposit]
  rfl

theorem depositRow_fits_iff {x : Float} {negative : Bool} {d : Decimal.Scaled}
    (hd : Decimal.Quantity.ofNumber (.real (0.0 + x)) = .finite negative d) :
    (depositRow x).Fits (plain.rulesOf vault) false ↔ d.units 2 < Decimal.tenTo 28 := by
  rw [Decimal.units_lt_iff negative, ← hd]
  constructor
  · rintro ⟨hv, -⟩
    exact hv _ rfl
  · intro hf
    refine ⟨fun n hn => ?_, nofun⟩
    cases hn
    exact hf

theorem answer_shortfall_or_fits_deposit :
    unset.problems = [] ∧ (deposit 120.0).report.InBounds ∧
    (deposit 120.0).report.read = .ok vault ∧ vault.check.outcome = .ok () ∧
    (∀ m ∈ (deposit 120.0).dataset.movements, m.amount.IsReal) ∧
    ofSettings unset = .ok plain ∧ ∃ shown, plain.answer (deposit 120.0) = .ok shown := by
  have hs : unset.problems = [] := by cbv
  have hg := deposit_inBounds 120.0
  have hm : ∀ m ∈ (deposit 120.0).dataset.movements, m.amount.IsReal := by
    intro m hm
    rw [List.mem_singleton.1 hm]
    rfl
  refine ⟨hs, hg, rfl, check_vault, hm, ofSettings_unset, ?_⟩
  obtain ⟨e, he, hcases⟩ := answer_shortfall_or_fits _ _ _ hs hg rfl check_vault hm
  obtain rfl : plain = e := Except.ok.inj (ofSettings_unset.symm.trans he)
  rcases hcases with ⟨hp, -⟩ | ⟨-, rows, hrows, hok, -⟩
  · exact absurd hp (by decide)
  · obtain rfl : [depositRow 120.0] = rows :=
      Except.ok.inj ((unformatted_deposit 120.0).symm.trans hrows)
    have hd : Decimal.Quantity.ofNumber (.real (0.0 + 120.0)) = .finite false ⟨12, 1⟩ := by
      decide +kernel
    refine hok fun row hrow => ?_
    rw [List.mem_singleton.1 hrow]
    exact (depositRow_fits_iff hd).2 (by decide)

/-- A finite amount whose text has too many digits: what is answered is neither rows nor a
shortfall. -/
theorem answer_deposit_eq_outOfRange :
    unset.problems = [] ∧ (deposit 1e30).report.InBounds ∧
    (deposit 1e30).report.read = .ok vault ∧ vault.check.outcome = .ok () ∧
    (∀ m ∈ (deposit 1e30).dataset.movements,
      ∃ x : Float, x.isFinite = true ∧ m.amount = some (.real x)) ∧
    ofSettings unset = .ok plain ∧ plain.answer (deposit 1e30) = .error .outOfRange ∧
    ¬ Error.IsShortfall .outOfRange := by
  have hm : ∀ m ∈ (deposit 1e30).dataset.movements,
      ∃ x : Float, x.isFinite = true ∧ m.amount = some (.real x) := by
    intro m hm
    rw [List.mem_singleton.1 hm]
    exact ⟨1e30, by decide +kernel, rfl⟩
  have hd : Decimal.Quantity.ofNumber (.real (0.0 + 1e30)) = .finite false ⟨1, 30⟩ := by
    decide +kernel
  have hfit : ¬ (depositRow 1e30).Fits (plain.rulesOf vault) false := by
    rw [depositRow_fits_iff hd]
    decide
  have hs : unset.problems = [] := by cbv
  have hg := deposit_inBounds 1e30
  refine ⟨hs, hg, rfl, check_vault, hm, ofSettings_unset, ?_, not_isShortfall_outOfRange⟩
  have hr : (plain.rulesOf vault).InBounds := FormattingRules.standard_inBounds
  rw [answer_deposit]
  exact displayed_error hr ⟨depositRow 1e30, List.mem_singleton.2 rfl, hfit⟩

end Engine
end LedgerReport
