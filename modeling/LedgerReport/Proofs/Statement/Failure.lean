import LedgerReport.Proofs.Statement.Session
import LedgerReport.Proofs.Statement.Selected
set_option autoImplicit false

namespace LedgerReport

namespace Cache
variable {α β : Type} {c c' : Cache α} {now : Instant} {k : CacheKey} {fingerprint : String}

def Outdated (c : Cache α) (now : Instant) (fingerprint : String) (entry : CacheEntry α) : Prop :=
  entry.fingerprint ≠ fingerprint ∨
    ∃ limit, c.maxAge = some limit ∧ limit.lt (.real (hours (now - entry.computed))) = true

/-- Whether a cache has lost at most the entry under a key, and that only if it was outdated: what
is still kept is kept in its place and as it was, and no look-up counts as a hit. -/
structure Spares (c c' : Cache α) (now : Instant) (k : CacheKey) (fingerprint : String) : Prop where
  entries : c'.entries.Sublist c.entries
  kept : ∀ k' entry, c'.kept? k' = some entry → c.kept? k' = some entry
  others : ∀ k' ≠ k, ∀ entry, c.kept? k' = some entry → c'.kept? k' = some entry
  own : ∀ entry, c.kept? k = some entry → c'.kept? k = none → c.Outdated now fingerprint entry
  hits : c'.hits = c.hits
  maxAge : c'.maxAge = c.maxAge

theorem outdated_of_get {entry : CacheEntry α} (hk : c.kept? k = some entry)
    (h : (c.get now k fingerprint).1 = none) : c.Outdated now fingerprint entry := by
  by_contra hn
  simp only [Outdated, not_or, not_not, not_exists, not_and, Bool.not_eq_true] at hn
  obtain ⟨rfl, hlimit⟩ := hn
  have hfound := get_eq_some_iff.2 ⟨entry.computed, hk, hlimit⟩
  rw [h] at hfound
  cases hfound

/-- A look-up that finds nothing spares the cache, leaves nothing under its key and counts as a
miss. -/
theorem spares_get (h : (c.get now k fingerprint).1 = none) :
    c.Spares (c.get now k fingerprint).2 now k fingerprint ∧
      (c.get now k fingerprint).2.kept? k = none ∧
      (c.get now k fingerprint).2.misses = c.misses + 1 := by
  have hkept : ∀ k', (c.get now k fingerprint).2.kept? k' =
      if k = k' then none else c.kept? k' := by
    intro k'
    rw [kept?_get, h]
    simp
  obtain ⟨hhits, hall⟩ := counts_get (c := c) now k fingerprint
  rw [h] at hhits
  refine ⟨⟨?_, fun k' entry he => ?_, fun k' hne entry he => ?_, fun entry he _ => ?_, hhits, ?_⟩,
    ?_, ?_⟩
  · unfold get
    cases c.find now k fingerprint with
    | fresh rows => exact .refl _
    | absent => exact .refl _
    | changed | stale => exact List.filter_sublist
  · rw [hkept] at he
    split at he
    · cases he
    · exact he
  · rw [hkept, if_neg (Ne.symm hne), he]
  · exact outdated_of_get he h
  · exact maxAge_get now k fingerprint
  · rw [hkept, if_pos rfl]
  · rw [hhits] at hall
    simp only [Option.isSome_none, Bool.false_eq_true, if_false] at hall
    omega

theorem get_map (f : List α → List β) (c : Cache α) (now : Instant) (k : CacheKey)
    (fingerprint : String) :
    (c.map f).get now k fingerprint =
      ((c.get now k fingerprint).1.map f, (c.get now k fingerprint).2.map f) := by
  unfold get
  rw [find_map]
  dsimp only
  rw [settle_map]
  cases c.find now k fingerprint <;> rfl

end Cache

namespace Request

def key (q : Request) (r : Report) : CacheKey := .ofSelectors r.id q.base q.comparison

/-- Whether the report of a request cannot be read, or does not pass its checks. -/
def Rejected (q : Request) : Prop :=
  (∃ error, q.report.read = .error error) ∨
    ∃ r error, q.report.read = .ok r ∧ r.check.outcome = .error error

/-- What a failed evaluation makes of a cache: nothing if its report is rejected, else what a
look-up makes of it that finds nothing. -/
structure Leaves (q : Request) (now : Instant) (c c' : Cache Row) : Prop where
  rejected : q.Rejected → c' = c
  evaluated : ∀ r, q.report.read = .ok r → r.check.outcome = .ok () →
    c.Spares c' now (q.key r) q.dataset.fingerprint ∧ c'.kept? (q.key r) = none ∧
      c'.misses = c.misses + 1

theorem not_rejected {q : Request} {r : Report} (hr : q.report.read = .ok r)
    (hc : r.check.outcome = .ok ()) : ¬ q.Rejected := by
  rintro (⟨error, hn⟩ | ⟨r', error, hr', hn⟩)
  · rw [hr] at hn
    cases hn
  · rw [hr] at hr'
    cases hr'
    rw [hc] at hn
    cases hn

theorem leaves_of_rejected {q : Request} {now : Instant} {c : Cache Row} (h : q.Rejected) :
    q.Leaves now c c :=
  ⟨fun _ => rfl, fun _ hr hc => absurd h (not_rejected hr hc)⟩

theorem leaves_of_get {q : Request} {now : Instant} {c : Cache Row} {r : Report}
    (hr : q.report.read = .ok r) (hc : r.check.outcome = .ok ())
    (h : (c.get now (q.key r) q.dataset.fingerprint).1 = none) :
    q.Leaves now c (c.get now (q.key r) q.dataset.fingerprint).2 := by
  refine ⟨fun hn => absurd hn (not_rejected hr hc), fun r' hr' _ => ?_⟩
  rw [hr] at hr'
  cases hr'
  exact Cache.spares_get h

end Request

namespace Engine
variable {e : Engine} {c : Cache Row} {now : Instant} {q : Request} {r : Report} {error : Error}

theorem lookUp_error
    (h : (e.lookUp c now r q.dataset q.base q.comparison).1.outcome = .error error) :
    (e.evaluateChecked r q.dataset q.base q.comparison).outcome = .error error ∧
      (c.get now (q.key r) q.dataset.fingerprint).1 = none ∧
      (e.lookUp c now r q.dataset q.base q.comparison).2 =
        (c.get now (q.key r) q.dataset.fingerprint).2 := by
  unfold Cache.get Request.key
  cases hf : c.find now (.ofSelectors r.id q.base q.comparison) q.dataset.fingerprint with
  | fresh rows =>
    rw [lookUp_fresh hf] at h
    cases h
  | absent | changed | stale =>
    obtain ⟨hrows, hafter⟩ := lookUp_missed (e := e) hf rfl
    have hfailed := hrows.symm.trans h
    rw [hfailed] at hafter
    exact ⟨hfailed, rfl, hafter⟩

theorem answerCached_error (h : (e.answerCached c now q).1 = .error error) :
    e.answer q = .error error ∧ q.Leaves now c (e.answerCached c now q).2 := by
  unfold answerCached at h ⊢
  cases hr : q.report.read with
  | error error' =>
    rw [hr] at h
    refine ⟨?_, Request.leaves_of_rejected (.inl ⟨error', hr⟩)⟩
    simp only [answer, hr]
    exact h
  | ok r =>
    rw [hr] at h
    rw [answer_of_read hr]
    simp only [evaluateCached] at h ⊢
    cases hc : r.check.outcome with
    | error error' =>
      rw [hc] at h
      exact ⟨h, Request.leaves_of_rejected (.inr ⟨r, error', hr, hc⟩)⟩
    | ok _ =>
      rw [hc] at h
      obtain ⟨hfailed, hmissed, hafter⟩ := lookUp_error h
      refine ⟨hfailed, ?_⟩
      have hleaves := Request.leaves_of_get hr hc hmissed
      rw [← hafter] at hleaves
      exact hleaves

end Engine

namespace Session
variable {e : Engine} {s : Session} {now : Instant} {q : Request} {r : Report} {error : Error}

theorem lookUp_error (h : (s.lookUp e now r q).1 = .error error) :
    (e.evaluateChecked r q.dataset q.base q.comparison).outcome = .error error ∧
      (s.cache.get now (q.key r) q.dataset.fingerprint).1 = none ∧
      (s.lookUp e now r q).2 =
        { s with cache := (s.cache.get now (q.key r) q.dataset.fingerprint).2 } := by
  unfold lookUp at h ⊢
  unfold Cache.get Request.key
  cases hf : s.cache.find now (.ofSelectors r.id q.base q.comparison) q.dataset.fingerprint with
  | fresh numbers =>
    simp only [hf] at h
    cases h
  | absent | changed | stale =>
    cases ho : (e.evaluateChecked r q.dataset q.base q.comparison).outcome with
    | ok rows =>
      simp only [hf, ho] at h
      cases h
    | error error' =>
      simp only [hf, ho] at h ⊢
      exact ⟨h, rfl, trivial⟩

theorem evaluate_rejected (s : Session) (e : Engine) (now : Instant) (h : q.Rejected) :
    ∃ error, s.evaluate e now q = (.error error, s) := by
  unfold evaluate
  rcases h with ⟨error, hr⟩ | ⟨r, error, hr, hc⟩
  · exact ⟨error, by rw [hr]⟩
  · exact ⟨error, by simp only [hr, hc]⟩

theorem evaluate_error (h : (s.evaluate e now q).1 = .error error) :
    e.answer q = .error error ∧ (s.evaluate e now q).2.lists = s.lists ∧
      (s.evaluate e now q).2.returned = s.returned ∧
      q.Leaves now s.shelf.contents (s.evaluate e now q).2.shelf.contents := by
  unfold evaluate at h ⊢
  cases hr : q.report.read with
  | error error' =>
    rw [hr] at h
    refine ⟨?_, rfl, rfl, Request.leaves_of_rejected (.inl ⟨error', hr⟩)⟩
    simp only [Engine.answer, hr]
    exact h
  | ok r =>
    rw [Engine.answer_of_read hr]
    simp only [hr] at h ⊢
    cases hc : r.check.outcome with
    | error error' =>
      simp only [hc] at h
      exact ⟨h, rfl, rfl, Request.leaves_of_rejected (.inr ⟨r, error', hr, hc⟩)⟩
    | ok _ =>
      simp only [hc] at h ⊢
      obtain ⟨hfailed, hmissed, hafter⟩ := lookUp_error h
      rw [hafter]
      refine ⟨hfailed, rfl, rfl, ?_⟩
      have hget := Cache.get_map s.shelf.read s.cache now (q.key r) q.dataset.fingerprint
      have hcontents : s.shelf.contents.get now (q.key r) q.dataset.fingerprint = _ := hget
      have hleaves := Request.leaves_of_get (c := s.shelf.contents) hr hc
        (by rw [hcontents, hmissed]; rfl)
      rw [hcontents] at hleaves
      exact hleaves

/-- A report that passes its checks fails where nothing is found for it, if it does without a
cache. -/
theorem evaluate_of_missed (hr : q.report.read = .ok r) (hc : r.check.outcome = .ok ())
    (hf : (s.cache.get now (q.key r) q.dataset.fingerprint).1 = none)
    (ha : e.answer q = .error error) : (s.evaluate e now q).1 = .error error := by
  rw [Engine.answer_of_read hr, hc] at ha
  change (e.evaluateChecked r q.dataset q.base q.comparison).outcome = .error error at ha
  unfold Cache.get Request.key at hf
  simp only [evaluate, hr, hc, lookUp]
  cases hfound : s.cache.find now (.ofSelectors r.id q.base q.comparison) q.dataset.fingerprint with
  | fresh numbers =>
    rw [hfound] at hf
    cases hf
  | absent | changed | stale => simp only [ha]

/-- An evaluation that fails, with the error that it has without a cache, leaves the lists that were
made as they are. Of the cache it has dropped at most an outdated entry under its own key, and
nothing at all if the report is rejected, as it then is for every cache. -/
theorem evaluate_error_leaves (e : Engine) (now : Instant) (q : Request) :
    (∀ (c : Cache Row) (error : Error), (e.answerCached c now q).1 = .error error →
      e.answer q = .error error ∧ q.Leaves now c (e.answerCached c now q).2) ∧
    (∀ (s : Session) (error : Error), (s.evaluate e now q).1 = .error error →
      e.answer q = .error error ∧ (s.evaluate e now q).2.lists = s.lists ∧
      (s.evaluate e now q).2.returned = s.returned ∧
      q.Leaves now s.shelf.contents (s.evaluate e now q).2.shelf.contents) ∧
    (q.Rejected → ∀ s : Session, ∃ error, s.evaluate e now q = (.error error, s)) :=
  ⟨fun _ _ h => Engine.answerCached_error h, fun _ _ h => evaluate_error h,
    fun h s => evaluate_rejected s e now h⟩

def shortRequest : Request := Engine.acrossTurn (Engine.holding [])

def otherKey : CacheKey := ⟨"drawer", "all:2024", none⟩

/-- A session that keeps rows of another report and, for longer than the hour that is allowed, rows
of the request. -/
def hoarding : Session where
  lists := [[], []]
  returned := []
  cache :=
    { maxAge := some (.whole 1)
      entries := [(otherKey, ⟨"", [0], 0⟩),
        (shortRequest.key Engine.vault, ⟨shortRequest.dataset.fingerprint, [1], 0⟩)]
      hits := 3
      misses := 5 }

/-- Two hours after its rows were computed, a request that fails has lost them; the rows of the
other report are kept. -/
theorem evaluate_error_leaves_hoarding :
    (hoarding.evaluate Engine.exacting (2 * Cache.hour) shortRequest).1 =
      .error (.insufficientPeriods "Turn (2023 P12 - 2024 P1)" 2 1) ∧
    hoarding.shelf.contents.kept? (shortRequest.key Engine.vault) =
      some ⟨shortRequest.dataset.fingerprint, [], 0⟩ ∧
    ∃ after, (hoarding.evaluate Engine.exacting (2 * Cache.hour) shortRequest).2.shelf.contents =
      after ∧ after.kept? (shortRequest.key Engine.vault) = none ∧
      after.kept? otherKey = some ⟨"", [], 0⟩ ∧ after.hits = 3 ∧ after.misses = 6 := by
  have hne : otherKey ≠ shortRequest.key Engine.vault :=
    fun h => absurd (congrArg CacheKey.reportId h) (by decide)
  have hkept : getPair? (shortRequest.key Engine.vault) hoarding.cache.entries =
      some ⟨shortRequest.dataset.fingerprint, [1], 0⟩ := by simp [hoarding, getPair?, hne]
  have hold : hoarding.cache.isStale (2 * Cache.hour)
      ⟨shortRequest.dataset.fingerprint, [1], 0⟩ = true := by
    have hage : (Number.whole 1).lt (.real (Cache.hours (2 * Cache.hour - 0))) = true := by
      decide +kernel
    exact hage
  have hstale : hoarding.cache.find (2 * Cache.hour) (shortRequest.key Engine.vault)
      shortRequest.dataset.fingerprint = .stale := by
    rw [Cache.find, hkept]
    simp only [ne_eq, not_true_eq_false, if_false, hold, if_true]
  have hmissed : (hoarding.cache.get (2 * Cache.hour) (shortRequest.key Engine.vault)
      shortRequest.dataset.fingerprint).1 = none := by
    rw [Cache.get, hstale]
    rfl
  have hfails := evaluate_of_missed rfl Engine.check_vault hmissed Engine.answer_acrossTurn
  obtain ⟨-, hsession, -⟩ :=
    evaluate_error_leaves Engine.exacting (2 * Cache.hour) shortRequest
  obtain ⟨-, -, -, hleaves⟩ := hsession hoarding _ hfails
  obtain ⟨hspares, hown, hmisses⟩ := hleaves.evaluated Engine.vault rfl Engine.check_vault
  have hcontents : hoarding.shelf.contents.entries = [(otherKey, ⟨"", [], 0⟩),
      (shortRequest.key Engine.vault, ⟨shortRequest.dataset.fingerprint, [], 0⟩)] := rfl
  refine ⟨hfails, ?_, _, rfl, hown, hspares.others otherKey hne _ ?_, hspares.hits, hmisses⟩
  · simp [Cache.kept?, getPair?, hcontents, hne]
  · simp [Cache.kept?, getPair?, hcontents]

end Session

end LedgerReport
