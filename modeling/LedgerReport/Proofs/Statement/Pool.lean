import Mathlib
import LedgerReport.Proofs.Statement.Variables
import LedgerReport.Statement.Pool
set_option autoImplicit false

namespace LedgerReport

namespace Pool
variable {workers : Int} {measures : Measures} {movements : List Movement} {s t : State}

def result (movements : List Movement) (m : String × Except Error Measure) :
    Except Error (String × Amount) :=
  (Measure.resolve m.1 m.2 movements).outcome.map fun a => (m.1, a)

/-- A task is that of a measure: the measure is what it works on, or has been resolved. -/
def Stands (movements : List Movement) (m : String × Except Error Measure) (t : String × Task) :
    Prop :=
  t.1 = m.1 ∧ match t.2 with
    | .waiting measure | .running measure => measure = m.2
    | .finished outcome => outcome = (Measure.resolve m.1 m.2 movements).outcome

/-- A stage that the user of a pool comes to once some measures are handed in. -/
def Stage.Fits (measures : Measures) (movements : List Movement) (handed : Measures) :
    Stage → Prop
  | .submitting rest => handed ++ rest = measures
  | .collecting values rest => handed = measures ∧ ∃ taken left, measures = taken ++ left ∧
      left.map Prod.fst = rest ∧ taken.mapM (result movements) = .ok values
  | .leaving outcome | .gone outcome =>
      handed = measures ∧ measures.mapM (result movements) = outcome

/-- The invariant of a pool: its tasks are those of the measures handed in, what was collected is
what the measures come to, and nobody leaves before all tasks are finished. -/
structure Fits (measures : Measures) (movements : List Movement) (s : State) : Prop where
  handed : ∃ handed, List.Forall₂ (Stands movements) handed s.tasks ∧
    s.stage.Fits measures movements handed
  closed : ∀ outcome, s.stage = .gone outcome → ∀ t ∈ s.tasks, t.2.isFinished

theorem fits_start : Fits measures movements (start measures) where
  handed := ⟨[], .nil, rfl⟩
  closed := nofun

theorem resolve_of_finished {handed : Measures} {tasks : List (String × Task)}
    (hn : (handed.map Prod.fst).Nodup) (hs : List.Forall₂ (Stands movements) handed tasks)
    {m : String × Except Error Measure} (hm : m ∈ handed) {outcome : Except Error Amount}
    (ht : (m.1, .finished outcome) ∈ tasks) :
    (Measure.resolve m.1 m.2 movements).outcome = outcome := by
  obtain ⟨m', hm', hname, houtcome⟩ := exists_of_forall₂ hs.flip _ ht
  have hsame : m = m' := List.inj_on_of_nodup_map hn hm hm' hname
  rw [hsame]
  exact houtcome.symm

theorem mapM_take {taken : Measures} {values : List (String × Amount)} {n : String}
    {m : Except Error Measure} {a : Amount}
    (htaken : taken.mapM (result movements) = .ok values)
    (hm : (Measure.resolve n m movements).outcome = .ok a) :
    (taken ++ [(n, m)]).mapM (result movements) = .ok (values ++ [(n, a)]) := by
  have hlast : result movements (n, m) = .ok (n, a) := by
    simp only [result, hm, Except.map]
  rw [List.mapM_append, htaken, List.mapM_cons, hlast]
  rfl

theorem mapM_fail {taken left : Measures} {values : List (String × Amount)} {n : String}
    {m : Except Error Measure} {e : Error}
    (htaken : taken.mapM (result movements) = .ok values)
    (hm : (Measure.resolve n m movements).outcome = .error e) :
    (taken ++ (n, m) :: left).mapM (result movements) = .error e := by
  have hnext : result movements (n, m) = .error e := by
    simp only [result, hm, Except.map]
  rw [List.mapM_append, htaken, List.mapM_cons, hnext]
  rfl

theorem Fits.step (hn : (measures.map Prod.fst).Nodup) (hs : Fits measures movements s)
    (hstep : Step workers measures movements s t) : Fits measures movements t := by
  obtain ⟨⟨handed, htasks, hstage⟩, hclosed⟩ := hs
  cases hstep with
  | @submit tasks name measure rest =>
    have hnew : Stands movements (name, measure) (name, .waiting measure) := ⟨rfl, rfl⟩
    have hsplit : handed ++ [(name, measure)] ++ rest = measures := by
      rw [List.append_assoc]
      exact hstage
    exact ⟨⟨handed ++ [(name, measure)], List.rel_append htasks (.cons hnew .nil), hsplit⟩, nofun⟩
  | ask =>
    have hall : handed = measures := by simpa [Stage.Fits] using hstage
    exact ⟨⟨handed, htasks, hall, [], measures, rfl, rfl, rfl⟩, nofun⟩
  | @take tasks values name a rest h =>
    obtain ⟨rfl, taken, left, hsplit, hleft, htaken⟩ := hstage
    obtain ⟨⟨n, m⟩, left, rfl, rfl, rfl⟩ := List.map_eq_cons_iff.1 hleft
    have hm : (n, m) ∈ handed := by simp [hsplit]
    have hvalue := resolve_of_finished hn htasks hm h
    refine ⟨⟨handed, htasks, rfl, taken ++ [(n, m)], left, ?_, rfl, mapM_take htaken hvalue⟩, nofun⟩
    rw [hsplit, List.append_assoc, List.singleton_append]
  | @fail tasks values name e rest h =>
    obtain ⟨rfl, taken, left, hsplit, hleft, htaken⟩ := hstage
    obtain ⟨⟨n, m⟩, left, rfl, rfl, rfl⟩ := List.map_eq_cons_iff.1 hleft
    have hm : (n, m) ∈ handed := by simp [hsplit]
    have herror := resolve_of_finished hn htasks hm h
    refine ⟨⟨handed, htasks, rfl, ?_⟩, nofun⟩
    rw [hsplit]
    exact mapM_fail htaken herror
  | complete =>
    obtain ⟨rfl, taken, left, hsplit, hleft, htaken⟩ := hstage
    obtain rfl := List.map_eq_nil_iff.1 hleft
    rw [List.append_nil] at hsplit
    exact ⟨⟨handed, htasks, rfl, hsplit ▸ htaken⟩, nofun⟩
  | leave h => exact ⟨⟨handed, htasks, hstage⟩, fun _ _ => h⟩
  | @begin pre name measure post stage h =>
    have hkeep : ∀ m, Stands movements m (name, .waiting measure) →
        Stands movements m (name, .running measure) := fun _ hm => hm
    refine ⟨⟨handed, forall₂_replace hkeep htasks, hstage⟩, fun o ho => ?_⟩
    cases hclosed o ho (name, .waiting measure) (by simp)
  | @finish pre name measure post stage =>
    refine ⟨⟨handed, forall₂_replace (fun m hm => ?_) htasks, hstage⟩, fun o ho => ?_⟩
    · obtain ⟨hname, hmeasure⟩ := hm
      cases hname
      cases hmeasure
      exact ⟨rfl, rfl⟩
    · cases hclosed o ho (name, .running measure) (by simp)

def Task.toGo : Task → Nat
  | .waiting _ => 2
  | .running _ => 1
  | .finished _ => 0

/-- The steps that the user of a pool still takes, and those of tasks not handed in yet. -/
def Stage.toGo (measures : Measures) : Stage → Nat
  | .submitting rest => 3 * rest.length + measures.length + 3
  | .collecting _ rest => rest.length + 2
  | .leaving _ => 1
  | .gone _ => 0

def State.toGo (measures : Measures) (s : State) : Nat :=
  (s.tasks.map fun t => t.2.toGo).sum + s.stage.toGo measures

theorem Step.toGo_lt (h : Step workers measures movements s t) :
    t.toGo measures < s.toGo measures := by
  cases h <;> simp only [State.toGo, Stage.toGo, Task.toGo, List.map_append, List.map_cons,
    List.map_nil, List.sum_append, List.sum_cons, List.sum_nil, List.length_cons, List.length_nil,
    List.length_map] <;> omega

theorem exists_step_of_unfinished (hw : 0 < workers) {tasks : List (String × Task)} {stage : Stage}
    {task : String × Task} (ht : task ∈ tasks) (hf : task.2.isFinished = false) :
    ∃ t, Step workers measures movements ⟨tasks, stage⟩ t := by
  by_cases hfree : (busy tasks : Int) < workers
  · obtain ⟨pre, post, rfl⟩ := List.append_of_mem ht
    obtain ⟨name, waiting | running | finished⟩ := task
    · exact ⟨_, .begin hfree⟩
    · exact ⟨_, .finish⟩
    · cases hf
  · have hbusy : 0 < busy tasks := by omega
    obtain ⟨⟨name, task⟩, hmem, hrun⟩ := List.countP_pos_iff.1 hbusy
    obtain ⟨pre, post, rfl⟩ := List.append_of_mem hmem
    cases task with
    | running measure => exact ⟨_, .finish⟩
    | waiting => cases hrun
    | finished => cases hrun

theorem Fits.exists_step (hw : 0 < workers) (hs : Fits measures movements s)
    (hopen : ∀ outcome, s.stage ≠ .gone outcome) : ∃ t, Step workers measures movements s t := by
  obtain ⟨tasks, stage⟩ := s
  obtain ⟨⟨handed, htasks, hstage⟩, -⟩ := hs
  cases stage with
  | submitting rest =>
    cases rest with
    | nil => exact ⟨_, .ask⟩
    | cons m rest => exact ⟨_, .submit⟩
  | collecting values rest =>
    cases rest with
    | nil => exact ⟨_, .complete⟩
    | cons name rest =>
      obtain ⟨rfl, taken, left, hsplit, hleft, -⟩ := hstage
      obtain ⟨m, left, rfl, rfl, rfl⟩ := List.map_eq_cons_iff.1 hleft
      obtain ⟨⟨n, task⟩, ht, rfl, -⟩ := exists_of_forall₂ htasks m (by simp [hsplit])
      cases task with
      | finished outcome =>
        cases outcome with
        | ok a => exact ⟨_, .take ht⟩
        | error e => exact ⟨_, .fail ht⟩
      | waiting measure => exact exists_step_of_unfinished hw ht rfl
      | running measure => exact exists_step_of_unfinished hw ht rfl
  | leaving outcome =>
    by_cases hall : ∀ t ∈ tasks, t.2.isFinished
    · exact ⟨_, .leave hall⟩
    · push Not at hall
      obtain ⟨task, ht, hf⟩ := hall
      exact exists_step_of_unfinished hw ht (by simpa using hf)
  | gone outcome => exact absurd rfl (hopen outcome)

theorem Fits.ends (hs : Fits measures movements s) {outcome : Except Error (List (String × Amount))}
    (hgone : s.stage = .gone outcome) :
    Ends workers measures movements (measures.mapM (result movements)) s := by
  obtain ⟨⟨handed, -, hstage⟩, hclosed⟩ := hs
  have hfinished := hclosed outcome hgone
  rw [hgone] at hstage
  refine ⟨by rw [hgone, hstage.2], fun t hstep => ?_⟩
  cases hstep with
  | @begin _ name measure => cases hfinished (name, .waiting measure) (by simp)
  | @finish _ name measure => cases hfinished (name, .running measure) (by simp)
  | _ => cases hgone

theorem Fits.inevitable (hn : (measures.map Prod.fst).Nodup) (hw : 0 < workers)
    (hs : Fits measures movements s) : Inevitable workers measures movements
      (Ends workers measures movements (measures.mapM (result movements))) s := by
  induction hgo : s.toGo measures using Nat.strongRecOn generalizing s with
  | _ n ih =>
    by_cases hopen : ∀ outcome, s.stage ≠ .gone outcome
    · refine .later (hs.exists_step hw hopen) fun t hstep => ?_
      exact ih (t.toGo measures) (hgo ▸ hstep.toGo_lt) (hs.step hn hstep) rfl
    · push Not at hopen
      obtain ⟨outcome, hgone⟩ := hopen
      exact .now (hs.ends hgone)

/-- What resolution in turn gives: a value for each measure in its place, or the error of the first
that fails. -/
theorem result_mapM (measures : Measures) (movements : List Movement) :
    match measures.mapM (result movements) with
    | .ok values => List.Forall₂ (fun m v =>
        v.1 = m.1 ∧ (Measure.resolve m.1 m.2 movements).outcome = .ok v.2) measures values
    | .error e => ∃ pre m rest, measures = pre ++ m :: rest ∧
        (∀ p ∈ pre, ∃ a, (Measure.resolve p.1 p.2 movements).outcome = .ok a) ∧
        (Measure.resolve m.1 m.2 movements).outcome = .error e := by
  split
  next values hvalues =>
    refine (forall₂_of_mapM_eq_ok hvalues).imp fun m v hv => ?_
    obtain ⟨a, ha, rfl⟩ := except_map_eq_ok.1 hv
    exact ⟨rfl, ha⟩
  next e herror =>
    have hfirst := errorOf?_mapM (result movements) measures
    rw [herror] at hfirst
    obtain ⟨pre, m, rest, hsplit, hm, hpre⟩ := List.findSome?_eq_some_iff.1 hfirst.symm
    refine ⟨pre, m, rest, hsplit, fun p hp => ?_, ?_⟩
    · have hnone := hpre p hp
      cases hr : (Measure.resolve p.1 p.2 movements).outcome with
      | ok a => exact ⟨a, rfl⟩
      | error e => simp [result, hr, Except.map, errorOf?] at hnone
    · cases hr : (Measure.resolve m.1 m.2 movements).outcome with
      | ok a => simp [result, hr, Except.map, errorOf?] at hm
      | error e =>
        simp only [result, hr, Except.map, errorOf?, Option.some.injEq] at hm
        rw [hm]

end Pool

namespace Resolver

/-- The values of variables do not depend on how many workers there are nor on how their tasks are
scheduled. -/
theorem resolveAll_scheduled (r : Resolver) (measures : Measures) (movements : List Movement)
    (hn : (measures.map Prod.fst).Nodup) :
    (r.resolveAll measures movements).outcome =
      (resolveAll ⟨1, r.policy⟩ measures movements).outcome ∧
    (1 < r.workers → 1 < measures.length →
      Pool.Inevitable r.workers measures movements
        (Pool.Ends r.workers measures movements (r.resolveAll measures movements).outcome)
        (Pool.start measures)) ∧
    match (r.resolveAll measures movements).outcome with
    | .ok values => List.Forall₂ (fun m v =>
        v.1 = m.1 ∧ (Measure.resolve m.1 m.2 movements).outcome = .ok v.2) measures values
    | .error e => ∃ pre m rest, measures = pre ++ m :: rest ∧
        (∀ p ∈ pre, ∃ a, (Measure.resolve p.1 p.2 movements).outcome = .ok a) ∧
        (Measure.resolve m.1 m.2 movements).outcome = .error e := by
  have hresult (r : Resolver) : (r.resolveAll measures movements).outcome =
      measures.mapM (Pool.result movements) := r.resolveAll_outcome measures movements
  rw [hresult r, hresult ⟨1, r.policy⟩]
  refine ⟨rfl, fun hw _ => ?_, Pool.result_mapM measures movements⟩
  exact Pool.fits_start.inevitable hn (by omega)

theorem resolveAll_scheduled_failing :
    let measures : Measures := [("cash", .ok ⟨.map [], .text "first"⟩),
      ("bank", .ok ⟨.map [], .text "median"⟩), ("debt", .error .noSuchEntries)]
    let error := Error.unknownAggregate (.text "median") (Aggregate.all.map Aggregate.name)
    (measures.map Prod.fst).Nodup ∧
    (resolveAll ⟨4, .takePart⟩ measures []).outcome = .error error ∧
    Pool.Inevitable 4 measures [] (Pool.Ends 4 measures [] (.error error))
      (Pool.start measures) := by
  intro measures error
  have hn : (measures.map Prod.fst).Nodup := by decide
  have herror : (resolveAll ⟨4, .takePart⟩ measures []).outcome = .error error := by cbv
  have hpool := (resolveAll_scheduled ⟨4, .takePart⟩ measures [] hn).2.1 (by decide) (by decide)
  rw [herror] at hpool
  exact ⟨hn, herror, hpool⟩

end Resolver
end LedgerReport
