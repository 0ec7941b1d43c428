import LedgerReport.Proofs.Period.Members
import LedgerReport.Proofs.Statement.Answer
set_option autoImplicit false

namespace LedgerReport.Engine
variable {d d' : Dataset}

theorem column_congr (e : Engine) (r : Report) {s : Selector}
    (h : d.within s.periods = d'.within s.periods) : e.column r d s = e.column r d' s := by
  unfold column
  rw [s.restrict_congr e.resolver.policy h]

theorem compared_congr (e : Engine) (r : Report) (rows : List Row) {comparison : Option Selector}
    (h : ∀ s ∈ comparison, d.within s.periods = d'.within s.periods) :
    e.compared r d rows comparison = e.compared r d' rows comparison := by
  cases comparison with
  | none => rfl
  | some s =>
    have hcolumn : e.column r d s = e.column r d' s := e.column_congr r (h s rfl)
    simp only [compared, hcolumn]

/-- The rows of a report, and what it warns of, over datasets that agree within the selected
periods. -/
theorem evaluate_congr (e : Engine) (r : Report) {base : Selector} {comparison : Option Selector}
    (hb : d.within base.periods = d'.within base.periods)
    (hc : ∀ s ∈ comparison, d.within s.periods = d'.within s.periods) :
    e.evaluate r d base comparison = e.evaluate r d' base comparison := by
  have hcolumn : e.column r d base = e.column r d' base := e.column_congr r hb
  have hcompared : ∀ rows, e.compared r d rows comparison = e.compared r d' rows comparison :=
    fun rows => e.compared_congr r rows hc
  simp only [evaluate, evaluateChecked, hcolumn, hcompared]

/-- Datasets that hold the same movements in the same order within the periods of the base, and
within those of the comparison if there is one, are answered alike, in success and in failure. -/
theorem answer_eq_of_within (e : Engine) (q : Request) (d : Dataset)
    (hb : q.dataset.within q.base.periods = d.within q.base.periods)
    (hc : ∀ s ∈ q.comparison, q.dataset.within s.periods = d.within s.periods) :
    e.answer q = e.answer { q with dataset := d } := by
  have heval : ∀ r, e.evaluate r q.dataset q.base q.comparison =
      e.evaluate r d q.base q.comparison := fun r => e.evaluate_congr r hb hc
  simp only [answer, heval]

def exacting : Engine := ⟨⟨1, .strict⟩, .standard⟩

def turn : Window := ⟨[⟨2023, 12⟩, ⟨2024, 1⟩], "Turn", by simp⟩

def holding (before : List Movement) : Dataset := ⟨before ++ [cash 80.0], "holding"⟩

def early : Movement := .ofFields (some (.real 40.0)) 2023 11 fun _ => .null

def acrossTurn (d : Dataset) : Request := ⟨.report vault, d, .year 2024, some (.window turn)⟩

theorem shortfall?_acrossTurn : (acrossTurn (holding [])).shortfall? .strict =
    some (.insufficientPeriods "Turn (2023 P12 - 2024 P1)" 2 1) := by
  have hlabel : (Selector.window turn).label = "Turn (2023 P12 - 2024 P1)" := by decide +kernel
  have hpresent : turn.present (holding []).periods = 1 := by decide +kernel
  simp only [acrossTurn, Request.shortfall?, Selector.shortfall?, Option.none_or,
    Option.bind_some, hlabel, hpresent]
  simp [turn]

theorem answer_acrossTurn : exacting.answer (acrossTurn (holding [])) =
    .error (.insufficientPeriods "Turn (2023 P12 - 2024 P1)" 2 1) := by
  have hi := Report.issues_of_check check_vault
  have hm : ∀ m ∈ (holding []).movements, m.amount.IsReal := by
    intro m hm
    rw [List.mem_singleton.1 hm]
    rfl
  have hgives := unformatted_gives (e := exacting) (q := acrossTurn (holding []))
    (Report.sound_of_issues hi) ((Report.check_ok_iff hi).1 check_vault) hm
  change Gives ((acrossTurn (holding [])).shortfall? .strict) _ _ at hgives
  rw [shortfall?_acrossTurn] at hgives
  rw [answer_eq rfl check_vault, hgives]
  rfl

/-- A movement before the window does not make up for the period that is missing in it. -/
theorem answer_eq_of_within_turn :
    (holding []).within (Selector.year 2024).periods =
      (holding [early]).within (Selector.year 2024).periods ∧
    (holding []).within turn.periods = (holding [early]).within turn.periods ∧
    exacting.answer (acrossTurn (holding [])) = exacting.answer (acrossTurn (holding [early])) ∧
    exacting.answer (acrossTurn (holding [early])) =
      .error (.insufficientPeriods "Turn (2023 P12 - 2024 P1)" 2 1) := by
  have hbase : (holding []).within (Selector.year 2024).periods =
      (holding [early]).within (Selector.year 2024).periods := by
    simp [holding, early, cash, Dataset.within, Selector.periods, Selector.mem_periodsUpTo,
      Movement.yearPeriod, Movement.ofFields]
  have hwindow : (holding []).within turn.periods = (holding [early]).within turn.periods := by
    simp [holding, early, cash, Dataset.within, turn, Movement.yearPeriod, Movement.ofFields]
  have hcomparison : ∀ s ∈ (acrossTurn (holding [])).comparison,
      (holding []).within s.periods = (holding [early]).within s.periods := by
    rintro s ⟨⟩
    exact hwindow
  have hanswer := answer_eq_of_within exacting (acrossTurn (holding [])) (holding [early]) hbase
    hcomparison
  exact ⟨hbase, hwindow, hanswer, hanswer ▸ answer_acrossTurn⟩

end LedgerReport.Engine
