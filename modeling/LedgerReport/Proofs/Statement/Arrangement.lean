import LedgerReport.Proofs.Report.Arrangement
import LedgerReport.Proofs.Statement.Answer
set_option autoImplicit false

namespace LedgerReport
open Amount

section Pairs
variable {α β : Type} [DecidableEq α] {pairs pairs' : List (α × β)} {key : α} {value : β}

theorem getPair?_eq_some_iff (hn : (pairs.map Prod.fst).Nodup) :
    getPair? key pairs = some value ↔ (key, value) ∈ pairs := by
  constructor
  · intro h
    obtain ⟨p, hp, rfl⟩ := Option.map_eq_some_iff.1 h
    have hk : p.1 = key := by simpa using List.find?_some hp
    exact hk ▸ List.mem_of_find?_eq_some hp
  · intro h
    obtain ⟨other, ho, hmem⟩ := exists_getPair? h
    cases List.inj_on_of_nodup_map hn h hmem rfl
    exact ho

theorem getPair?_perm (hp : pairs'.Perm pairs) (hn : (pairs.map Prod.fst).Nodup) (key : α) :
    getPair? key pairs' = getPair? key pairs := by
  have hn' : (pairs'.map Prod.fst).Nodup := (hp.map Prod.fst).nodup_iff.2 hn
  ext value
  rw [getPair?_eq_some_iff hn', getPair?_eq_some_iff hn, hp.mem_iff]

end Pairs

theorem Report.names_of_resolveAll {r : Report} {resolver : Resolver} {movements : List Movement}
    {values : List (String × Amount)}
    (h : (resolver.resolveAll r.measures movements).outcome = .ok values) :
    values.map Prod.fst = r.vars.map Prod.fst := by
  rw [resolver.resolveAll_outcome] at h
  have hnames : values.map Prod.fst = r.measures.map Prod.fst := by
    refine map_eq_of_forall₂ (fun m value hv => ?_) (forall₂_of_mapM_eq_ok h)
    cases ho : (Measure.resolve m.1 m.2 movements).outcome with
    | error e => simp [ho, Except.map] at hv
    | ok a =>
      simp only [ho, Except.map, Except.ok.injEq] at hv
      rw [← hv]
  rw [hnames, measures, List.map_map]
  rfl

theorem Layout.Equation.congr_values {layout : List Item} {values values' : List (String × Amount)}
    {movements : List Movement} {v : Int → Option Float} {item : Item} {x : Option Float}
    (hv : ∀ name, getPair? name values' = getPair? name values)
    (h : Equation layout values movements v item x) :
    Equation layout values' movements v item x := by
  have ha : assignment values' v = assignment values v := by
    funext ref
    cases ref with
    | name s => simp only [assignment, hv]
    | order n => rfl
  unfold Equation at h ⊢
  simpa only [hv, ha] using h

namespace Report.Rearranges
variable {r r' : Report} {values values' : List (String × Amount)} {movements : List Movement}

theorem resolveAll (h : r'.Rearranges r) (hn : (r.vars.map Prod.fst).Nodup) (resolver : Resolver)
    (hv : (resolver.resolveAll r.measures movements).outcome = .ok values) :
    ∃ values', (resolver.resolveAll r'.measures movements).outcome = .ok values' ∧
      ∀ name, getPair? name values' = getPair? name values := by
  have hp : r'.measures.Perm r.measures := h.vars.map _
  have hnames : values.map Prod.fst = r.vars.map Prod.fst := names_of_resolveAll hv
  rw [resolver.resolveAll_outcome] at hv
  obtain ⟨values', hperm, hv'⟩ := mapM_perm hp hv
  refine ⟨values', by rw [resolver.resolveAll_outcome, hv'], fun name => ?_⟩
  exact getPair?_perm hperm (hnames ▸ hn) name

theorem rows (h : r'.Rearranges r) (hs : r.Sound) (hs' : r'.Sound) (ha : r.Ascending)
    (hv : ∀ p ∈ r.vars, ∃ x, getPair? p.1 values = some (ofReal x))
    (hm : ∀ m ∈ movements, m.amount.IsReal)
    (hsame : ∀ name, getPair? name values' = getPair? name values) :
    r'.rows values' movements = r.rows values movements := by
  have hsorted := h.sortedLayout hs hs'
  have ha' : r'.Ascending := fun i hi => ha i (h.layout.mem_iff.1 hi)
  have hv' : ∀ p ∈ r'.vars, ∃ x, getPair? p.1 values' = some (ofReal x) := fun p hp =>
    hsame p.1 ▸ hv p (h.vars.mem_iff.1 hp)
  obtain ⟨v, hsol, hrows⟩ := hs.exists_rows ha hv hm
  have hsol' : Layout.Solves r'.sortedLayout values' movements v := by
    rw [hsorted]
    exact fun item hi => (hsol item hi).congr_values hsame
  rw [hrows, hs'.rows_eq ha' hv' hsol', hsorted]

end Report.Rearranges

namespace Engine
variable {e : Engine} {r r' : Report} {d : Dataset}

theorem column_rearranged (e : Engine) (h : r'.Rearranges r) (hi : r.issues = .ok [])
    (ha : r.Ascending) (hn : (r.vars.map Prod.fst).Nodup)
    (hm : ∀ m ∈ d.movements, m.amount.IsReal) (s : Selector) :
    (e.column r' d s).outcome = (e.column r d s).outcome := by
  have hs := Report.sound_of_issues hi
  have hs' := Report.sound_of_issues (h.issues hi)
  unfold column
  rw [Logged.outcome_bind, Logged.outcome_bind]
  cases hr : (s.restrict e.resolver.policy d).outcome with
  | error error => rfl
  | ok movements =>
    obtain ⟨-, rfl⟩ := Selector.restrict_eq_ok_iff.1 hr
    have hselected : ∀ m ∈ s.select d, m.amount.IsReal :=
      fun m hmem => hm m (List.mem_filter.1 hmem).1
    obtain ⟨values, hvalues, hv⟩ := hs.resolveAll_ok e.resolver hselected
    obtain ⟨values', hvalues', hsame⟩ := h.resolveAll hn e.resolver hvalues
    have hrows : (e.resolver.resolveAll r'.measures (s.select d) >>= fun values =>
          Logged.ofExcept (r'.rows values (s.select d))).outcome =
        (e.resolver.resolveAll r.measures (s.select d) >>= fun values =>
          Logged.ofExcept (r.rows values (s.select d))).outcome := by
      rw [Logged.outcome_bind, Logged.outcome_bind, hvalues, hvalues']
      exact h.rows hs hs' ha hv hselected hsame
    exact hrows

/-- A report without issues whose variables and rows are written in another order passes the same
checks, or fails them with the same error, and is answered alike over movements with floating-point
amounts. -/
theorem answer_rearranged (r r' : Report) (h : r'.Rearranges r) (hn : (r.vars.map Prod.fst).Nodup)
    (hi : r.issues = .ok []) :
    r'.check = r.check ∧
    ∀ (e : Engine) (d : Dataset) (base : Selector) (comparison : Option Selector),
      (∀ m ∈ d.movements, m.amount.IsReal) →
      e.answer ⟨.report r', d, base, comparison⟩ = e.answer ⟨.report r, d, base, comparison⟩ := by
  refine ⟨h.check hi, fun e d base comparison hm => ?_⟩
  rw [answer_of_read rfl, answer_of_read rfl, h.check hi]
  cases hc : r.check.outcome with
  | error error => rfl
  | ok _ =>
    have hcolumn := e.column_rearranged h hi ((Report.check_ok_iff hi).1 hc) hn hm
    have hcompared : ∀ rows, (e.compared r' d rows comparison).outcome =
        (e.compared r d rows comparison).outcome := by
      intro rows
      cases comparison with
      | none => rfl
      | some s => simp only [compared, Logged.outcome_bind, hcolumn]
    simp only [evaluateChecked, Logged.outcome_bind, hcolumn, hcompared, displayed, h.formatting]

def margin : Report where
  id := "margin"
  name := "Margin"
  version := "1.0.0"
  statement := .income
  description := none
  vars := [("revenue", ⟨[(.text "code1", .text "400")], "sum", none⟩),
    ("costs", ⟨[(.text "code1", .text "600")], "last", none⟩)]
  layout := [⟨10, none, none, none, 0, .ofVariable "revenue"⟩,
    ⟨20, none, none, none, 0, .calculated "@10 - costs"⟩,
    ⟨30, none, none, none, 0, .subtotal 10 20⟩]
  formatting := none

def marginReversed : Report :=
  { margin with vars := margin.vars.reverse, layout := margin.layout.reverse }

theorem answer_rearranged_margin :
    marginReversed.Rearranges margin ∧ (margin.vars.map Prod.fst).Nodup ∧
    margin.issues = .ok [] ∧ (∀ m ∈ [Report.sale], m.amount.IsReal) ∧
    marginReversed.check = margin.check ∧
    plain.answer ⟨.report marginReversed, ⟨[Report.sale], "sales"⟩, .year 2024, some (.year 2023)⟩ =
      plain.answer ⟨.report margin, ⟨[Report.sale], "sales"⟩, .year 2024, some (.year 2023)⟩ := by
  have h : marginReversed.Rearranges margin :=
    ⟨List.reverse_perm _, List.reverse_perm _, rfl⟩
  have hn : (margin.vars.map Prod.fst).Nodup := by decide
  have hi : margin.issues = .ok [] := by cbv
  have hm : ∀ m ∈ [Report.sale], m.amount.IsReal := by
    intro m hm
    rw [List.mem_singleton.1 hm]
    rfl
  obtain ⟨hcheck, hanswer⟩ := answer_rearranged margin marginReversed h hn hi
  exact ⟨h, hn, hi, hm, hcheck, hanswer plain ⟨[Report.sale], "sales"⟩ _ _ hm⟩

end Engine
end LedgerReport
