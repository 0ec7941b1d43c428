import LedgerReport.Proofs.Statement.Shelf
/-!
A cache does not show in the answers of a session.

An entry of the cache stems from an evaluation whose report has not been dropped since (`Traced`).
Each step keeps that and gives the answer that would be given without a cache; where two reports
share an identifier, the steps between their evaluations must drop it. Lists that are returned are
no lists of the cache, so changing them changes nothing that is kept (`Shelf.Apart`).
-/

set_option autoImplicit false

namespace LedgerReport

def Step.Drops (reportId : String) : Step → Prop
  | .invalidate id => id = reportId
  | .clear => True
  | _ => False

/-- Whether evaluations of different reports with one identifier are always separated by a step
that drops it. -/
def Separated (steps : List Step) : Prop :=
  ∀ before t q between t' q' after r r',
    steps = before ++ .evaluate t q :: (between ++ .evaluate t' q' :: after) →
    q.report.read = .ok r → q'.report.read = .ok r' → r.id = r'.id → r ≠ r' →
    ∃ step ∈ between, step.Drops r.id

/-- Whether datasets of a session with different movements have different fingerprints. -/
def Distinguished (steps : List Step) : Prop :=
  ∀ t q t' q', .evaluate t q ∈ steps → .evaluate t' q' ∈ steps →
    q.dataset.fingerprint = q'.dataset.fingerprint → q.dataset.movements = q'.dataset.movements

namespace Engine
variable {e : Engine} {c : Cache Row} {before : List Step} {step : Step}

/-- Whether an entry holds the rows of an evaluation whose report has not been dropped since. -/
def Origin (e : Engine) (before : List Step) (entry : CacheKey × CacheEntry Row) : Prop :=
  ∃ earlier t q since r,
    before = earlier ++ .evaluate t q :: since ∧ (∀ step ∈ since, ¬ step.Drops r.id) ∧
    q.report.read = .ok r ∧ entry.1 = CacheKey.ofSelectors r.id q.base q.comparison ∧
    entry.2.fingerprint = q.dataset.fingerprint ∧
    (e.evaluateChecked r q.dataset q.base q.comparison).outcome = .ok entry.2.rows

def Traced (e : Engine) (before : List Step) (c : Cache Row) : Prop :=
  ∀ entry ∈ c.entries, e.Origin before entry

theorem Origin.snoc {entry : CacheKey × CacheEntry Row} (h : e.Origin before entry)
    (hd : ¬ step.Drops entry.1.reportId) : e.Origin (before ++ [step]) entry := by
  obtain ⟨earlier, t, q, since, r, rfl, hs, hr, hk, hf, ho⟩ := h
  refine ⟨earlier, t, q, since ++ [step], r, by simp, fun other hm => ?_, hr, hk, hf, ho⟩
  rcases List.mem_append.1 hm with hm | hm
  · exact hs other hm
  · rw [List.mem_singleton.1 hm]
    rw [hk] at hd
    exact hd

theorem traced_empty (maxAge : Option Number) : e.Traced [] (.empty maxAge) := by
  intro entry h
  cases h

theorem Traced.fresh {after : List Step} {t : Instant} {q : Request} {r : Report} {rows : List Row}
    (h : e.Traced before c) (hs : Separated (before ++ .evaluate t q :: after))
    (hd : Distinguished (before ++ .evaluate t q :: after)) (hr : q.report.read = .ok r)
    (hf : c.find t (CacheKey.ofSelectors r.id q.base q.comparison) q.dataset.fingerprint =
      .fresh rows) :
    (e.evaluateChecked r q.dataset q.base q.comparison).outcome = .ok rows := by
  obtain ⟨computed, hmem⟩ := Cache.mem_of_find_eq_fresh hf
  obtain ⟨earlier, t', q', since, r', rfl, hnot, hr', hk, hprint, ho⟩ := h _ hmem
  obtain ⟨hid, hbase, hcomparison⟩ := CacheKey.ofSelectors_inj hk.symm
  have hsame : r' = r := by
    refine Classical.byContradiction fun hne => ?_
    obtain ⟨step, hm, hdrop⟩ := hs earlier t' q' since t q after r' r (by simp) hr' hr hid hne
    exact hnot step hm hdrop
  subst hsame
  exact evaluateChecked_eq_ok hbase hcomparison (hd t' q' t q (by simp) (by simp) hprint.symm) ho

theorem Traced.mono {c' : Cache Row} (h : e.Traced before c)
    (hc : ∀ entry ∈ c'.entries, entry ∈ c.entries) : e.Traced before c' :=
  fun entry hm => h entry (hc entry hm)

theorem Traced.snoc (h : e.Traced before c) (hd : ∀ id, ¬ step.Drops id) :
    e.Traced (before ++ [step]) c :=
  fun entry hm => (h entry hm).snoc (hd _)

theorem Traced.set {t : Instant} {q : Request} {r : Report} {rows : List Row}
    (h : e.Traced before c) (hr : q.report.read = .ok r)
    (ho : (e.evaluateChecked r q.dataset q.base q.comparison).outcome = .ok rows) :
    e.Traced (before ++ [.evaluate t q])
      (c.set t (CacheKey.ofSelectors r.id q.base q.comparison) q.dataset.fingerprint rows) := by
  intro entry hm
  rcases Cache.mem_of_mem_set hm with hm | rfl
  · exact h.snoc (fun _ => id) entry hm
  · exact ⟨before, t, q, [], r, by simp, by simp, hr, rfl, rfl, ho⟩

theorem lookUp_fresh {c : Cache Row} {t : Instant} {r : Report} {d : Dataset} {base : Selector}
    {comparison : Option Selector} {rows : List Row}
    (hf : c.find t (CacheKey.ofSelectors r.id base comparison) d.fingerprint = .fresh rows) :
    e.lookUp c t r d base comparison = (pure rows,
      c.settle (CacheKey.ofSelectors r.id base comparison) (.fresh rows)) := by
  unfold lookUp
  simp only [hf]

theorem lookUp_missed {c : Cache Row} {t : Instant} {r : Report} {d : Dataset} {base : Selector}
    {comparison : Option Selector} {found : Cache.Found Row}
    (hf : c.find t (CacheKey.ofSelectors r.id base comparison) d.fingerprint = found)
    (hn : found.rows? = none) :
    (e.lookUp c t r d base comparison).1.outcome = (e.evaluateChecked r d base comparison).outcome ∧
      (e.lookUp c t r d base comparison).2 =
        match (e.evaluateChecked r d base comparison).outcome with
        | .ok rows => (c.settle (CacheKey.ofSelectors r.id base comparison) found).set t
            (CacheKey.ofSelectors r.id base comparison) d.fingerprint rows
        | .error _ => c.settle (CacheKey.ofSelectors r.id base comparison) found := by
  have hw : ∀ ws, (do
      Logged.warn ws
      e.evaluateChecked r d base comparison).outcome =
        (e.evaluateChecked r d base comparison).outcome := by
    intro ws
    rw [Logged.outcome_bind, Logged.outcome_warn]
    rfl
  unfold lookUp
  cases found with
  | fresh rows => cases hn
  | absent | changed | stale =>
    simp only [hf, hw]
    cases ho : (e.evaluateChecked r d base comparison).outcome with
    | ok rows => exact ⟨(hw _).trans ho, rfl⟩
    | error error => exact ⟨(hw _).trans ho, rfl⟩

theorem lookUp_traced {t : Instant} {q : Request} {r : Report} {after : List Step}
    (h : e.Traced before c) (hs : Separated (before ++ .evaluate t q :: after))
    (hd : Distinguished (before ++ .evaluate t q :: after)) (hr : q.report.read = .ok r) :
    (e.lookUp c t r q.dataset q.base q.comparison).1.outcome =
        (e.evaluateChecked r q.dataset q.base q.comparison).outcome ∧
      e.Traced (before ++ [.evaluate t q]) (e.lookUp c t r q.dataset q.base q.comparison).2 := by
  have hsettled : ∀ found, e.Traced before
      (c.settle (CacheKey.ofSelectors r.id q.base q.comparison) found) :=
    fun found => h.mono fun entry => Cache.mem_of_mem_settle
  cases hf : c.find t (CacheKey.ofSelectors r.id q.base q.comparison) q.dataset.fingerprint with
  | fresh rows =>
    rw [lookUp_fresh hf]
    exact ⟨(h.fresh hs hd hr hf).symm, (hsettled _).snoc fun _ => id⟩
  | absent | changed | stale =>
    obtain ⟨hrows, hafter⟩ := lookUp_missed (e := e) hf rfl
    refine ⟨hrows, ?_⟩
    rw [hafter]
    cases ho : (e.evaluateChecked r q.dataset q.base q.comparison).outcome with
    | ok rows => exact (hsettled _).set hr ho
    | error error => exact (hsettled _).snoc fun _ => id

theorem answerCached_traced {t : Instant} {q : Request} {after : List Step}
    (h : e.Traced before c) (hs : Separated (before ++ .evaluate t q :: after))
    (hd : Distinguished (before ++ .evaluate t q :: after)) :
    (e.answerCached c t q).1 = e.answer q ∧
      e.Traced (before ++ [.evaluate t q]) (e.answerCached c t q).2 := by
  have hkept := h.snoc fun (_ : String) (hd : (Step.evaluate t q).Drops _) => hd
  unfold answerCached
  cases hr : q.report.read with
  | error error => exact ⟨by simp only [answer, hr]; rfl, hkept⟩
  | ok r =>
    rw [answer_of_read hr]
    simp only [evaluateCached]
    cases hc : r.check.outcome with
    | error error => exact ⟨rfl, hkept⟩
    | ok _ => exact lookUp_traced h hs hd hr

theorem next_traced {after : List Step} (h : e.Traced before c)
    (hs : Separated (before ++ step :: after)) (hd : Distinguished (before ++ step :: after)) :
    (e.next c step).1 = e.answer? step ∧ e.Traced (before ++ [step]) (e.next c step).2 := by
  cases step with
  | evaluate t q =>
    obtain ⟨ha, ht⟩ := answerCached_traced h hs hd
    exact ⟨congrArg some ha, ht⟩
  | invalidate id =>
    refine ⟨rfl, fun entry hm => ?_⟩
    obtain ⟨hm, hne⟩ := Cache.mem_of_mem_invalidate hm
    exact (h entry hm).snoc (Ne.symm hne)
  | clear =>
    refine ⟨rfl, fun entry hm => ?_⟩
    cases hm
  | age k computed =>
    refine ⟨rfl, fun entry hm => ?_⟩
    obtain ⟨before', hm⟩ := Cache.mem_of_mem_redate hm
    exact (h _ hm).snoc id
  | edit i change => exact ⟨rfl, h.snoc fun _ => id⟩

theorem answers_traced {steps : List Step} (h : e.Traced before c)
    (hs : Separated (before ++ steps)) (hd : Distinguished (before ++ steps)) :
    answers e.next c steps = steps.filterMap e.answer? := by
  induction steps generalizing before c with
  | nil => rfl
  | cons step steps ih =>
    obtain ⟨ha, ht⟩ := next_traced h hs hd
    have hrest := ih ht (by simpa using hs) (by simpa using hd)
    rw [answers, ha, hrest, List.filterMap_cons]
    cases e.answer? step <;> rfl

end Engine

namespace Session
variable {e : Engine} {s : Session}

/-- The lists and the cache of a session, and what its callers hold of them. -/
def shelf (s : Session) : Shelf Row := ⟨s.lists, s.returned, s.cache⟩

theorem apart_start (maxAge : Option Number) : (start maxAge).shelf.Apart :=
  Shelf.apart_start maxAge

theorem shelf_edit (s : Session) (i : Nat) (change : List Row → List Row) :
    (s.edit i change).shelf = s.shelf.edit i change := by
  unfold edit Shelf.edit shelf
  simp only
  cases s.returned[i]? <;> rfl

theorem lookUp_mirrors (h : s.shelf.Apart) (now : Instant) (r : Report) (q : Request) :
    (s.lookUp e now r q).1 =
        (e.lookUp s.shelf.contents now r q.dataset q.base q.comparison).1.outcome ∧
      (s.lookUp e now r q).2.shelf.contents =
        (e.lookUp s.shelf.contents now r q.dataset q.base q.comparison).2 ∧
      (s.lookUp e now r q).2.shelf.Apart := by
  have hfind : s.shelf.contents.find now (CacheKey.ofSelectors r.id q.base q.comparison)
      q.dataset.fingerprint = _ := Cache.find_map s.shelf.read s.cache now _ _
  unfold lookUp
  cases hf : s.cache.find now (CacheKey.ofSelectors r.id q.base q.comparison)
      q.dataset.fingerprint with
  | fresh numbers =>
    rw [hf] at hfind
    have hsettled := h.settle (CacheKey.ofSelectors r.id q.base q.comparison) (.fresh numbers)
    rw [Engine.lookUp_fresh hfind]
    simp only [hf]
    refine ⟨rfl, ?_, hsettled.give _⟩
    exact (Shelf.contents_give hsettled _).trans (Shelf.contents_settle s.shelf _ _)
  | absent | changed | stale =>
    rw [hf] at hfind
    have hsettled := h.settle (CacheKey.ofSelectors r.id q.base q.comparison)
      (s.cache.find now (CacheKey.ofSelectors r.id q.base q.comparison) q.dataset.fingerprint)
    rw [hf] at hsettled
    obtain ⟨hrows, hafter⟩ := Engine.lookUp_missed (e := e) hfind rfl
    rw [hrows, hafter]
    simp only [hf]
    cases ho : (e.evaluateChecked r q.dataset q.base q.comparison).outcome with
    | ok rows =>
      refine ⟨rfl, ?_, (hsettled.give rows).keep _ _ _ _⟩
      refine (Shelf.contents_keep (hsettled.give rows) _ _ _ _).trans ?_
      rw [Shelf.contents_give hsettled, Shelf.contents_settle]
    | error error => exact ⟨rfl, Shelf.contents_settle s.shelf _ _, hsettled⟩

theorem evaluate_mirrors (h : s.shelf.Apart) (now : Instant) (q : Request) :
    (s.evaluate e now q).1 = (e.answerCached s.shelf.contents now q).1 ∧
      (s.evaluate e now q).2.shelf.contents = (e.answerCached s.shelf.contents now q).2 ∧
      (s.evaluate e now q).2.shelf.Apart := by
  unfold evaluate Engine.answerCached
  cases q.report.read with
  | error error => exact ⟨rfl, rfl, h⟩
  | ok r =>
    simp only [Engine.evaluateCached]
    cases r.check.outcome with
    | error error => exact ⟨rfl, rfl, h⟩
    | ok _ => exact lookUp_mirrors h now r q

theorem next_mirrors (h : s.shelf.Apart) (step : Step) :
    (next e s step).1 = (e.next s.shelf.contents step).1 ∧
      (next e s step).2.shelf.contents = (e.next s.shelf.contents step).2 ∧
      (next e s step).2.shelf.Apart := by
  cases step with
  | evaluate now q =>
    obtain ⟨hrows, hcontents, hapart⟩ := evaluate_mirrors (e := e) h now q
    exact ⟨congrArg some hrows, hcontents, hapart⟩
  | invalidate id =>
    refine ⟨rfl, (Cache.invalidate_map s.shelf.read s.cache id).symm,
      h.of_subset fun entry hm => ?_⟩
    exact ⟨entry, (Cache.mem_of_mem_invalidate hm).1, rfl⟩
  | clear => exact ⟨rfl, rfl, h.of_subset fun entry hm => nomatch hm⟩
  | age k computed =>
    refine ⟨rfl, (Cache.redate_map s.shelf.read s.cache k computed).symm,
      h.of_subset fun entry hm => ?_⟩
    obtain ⟨before, hm⟩ := Cache.mem_of_mem_redate hm
    exact ⟨_, hm, rfl⟩
  | edit i change =>
    refine ⟨rfl, ?_⟩
    simp only [next, shelf_edit]
    exact ⟨Shelf.contents_edit h i change, h.edit i change⟩

theorem answers_mirrors (h : s.shelf.Apart) (steps : List Step) :
    answers (next e) s steps = answers e.next s.shelf.contents steps := by
  induction steps generalizing s with
  | nil => rfl
  | cons step steps ih =>
    obtain ⟨ha, hc, hs⟩ := next_mirrors (e := e) h step
    rw [answers, answers, ha, ih hs, hc]

end Session

/-- Every evaluation of a session gives the answer that would be given without a cache, whether
lists are values or objects that their holders may change. -/
theorem answers_eq_uncached (e : Engine) (maxAge : Option Number) (steps : List Step)
    (hs : Separated steps) (hd : Distinguished steps) :
    answers e.next (.empty maxAge) steps = steps.filterMap e.answer? ∧
      answers (Session.next e) (Session.start maxAge) steps = steps.filterMap e.answer? := by
  have hvalues := Engine.answers_traced (e := e) (Engine.traced_empty maxAge) hs hd
  exact ⟨hvalues, (Session.answers_mirrors (Session.apart_start maxAge) steps).trans hvalues⟩

namespace Session

def january : Movement := .ofFields (some (.real 120.0)) 2024 1 fun _ => .null

def total (name : String) : Report where
  id := "total"
  name := name
  version := "1.0.0"
  statement := .income
  description := none
  vars := []
  layout := [⟨10, none, none, none, 0, .category []⟩]
  formatting := none

def request (name : String) : Request :=
  ⟨.report (total name), ⟨[january], "ledger"⟩, .year 2024, none⟩

/-- A report, the same report again after its rows are changed, and another one with its identifier
after that is dropped. -/
def visits : List Step :=
  [.evaluate 0 (request "Total"), .edit 0 fun _ => [], .evaluate 1 (request "Total"),
    .invalidate "total", .evaluate 2 (request "Sum")]

end Session

theorem answers_eq_uncached_visits :
    Separated Session.visits ∧ Distinguished Session.visits ∧
    ∀ e : Engine,
      answers e.next (.empty none) Session.visits = Session.visits.filterMap e.answer? ∧
      answers (Session.next e) (Session.start none) Session.visits =
        Session.visits.filterMap e.answer? := by
  have hs : Separated Session.visits := by
    intro before t q between t' q' after r r' h hr hr' hid hne
    simp only [Session.visits, List.cons_eq_append_iff, List.append_eq_cons_iff, List.nil_eq,
      List.append_eq_nil_iff, List.cons_ne_nil, List.cons.injEq, reduceCtorEq, Step.evaluate.injEq,
      and_false, false_and, exists_false, or_false, false_or] at h
    obtain ⟨-, ⟨-, rfl⟩, _, rfl, ⟨-, ⟨-, rfl⟩, -⟩ | ⟨_, rfl, _, rfl, -⟩⟩ |
      ⟨_, -, _, -, -, ⟨-, rfl⟩, _, rfl, -⟩ := h
    · exact absurd (Except.ok.inj (hr.symm.trans hr')) hne
    · exact ⟨.invalidate "total", by simp, congrArg Report.id (Except.ok.inj hr)⟩
    · exact ⟨.invalidate "total", by simp, congrArg Report.id (Except.ok.inj hr)⟩
  have hd : Distinguished Session.visits := by
    intro t q t' q' hm hm' _
    have hall : ∀ t q, .evaluate t q ∈ Session.visits →
        q.dataset.movements = [Session.january] := by
      intro t q hm
      simp only [Session.visits, List.mem_cons, List.not_mem_nil, Step.evaluate.injEq, reduceCtorEq,
        false_or, or_false] at hm
      rcases hm with ⟨-, rfl⟩ | ⟨-, rfl⟩ | ⟨-, rfl⟩ <;> rfl
    rw [hall t q hm, hall t' q' hm']
  exact ⟨hs, hd, fun e => answers_eq_uncached e none Session.visits hs hd⟩

end LedgerReport
