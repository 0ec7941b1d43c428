import LedgerReport.Statement.Session
import LedgerReport.Proofs.Period.Selection
import LedgerReport.Proofs.Traversal
set_option autoImplicit false

namespace LedgerReport

theorem getPair?_map_snd {α β γ : Type} [DecidableEq α] (f : β → γ) (key : α)
    (pairs : List (α × β)) :
    getPair? key (pairs.map fun p => (p.1, f p.2)) = (getPair? key pairs).map f := by
  unfold getPair?
  rw [List.find?_map, Option.map_map, Option.map_map]
  rfl

theorem setPair_map_snd {α β γ : Type} [DecidableEq α] (f : β → γ) (key : α) (value : β)
    (pairs : List (α × β)) :
    setPair key (f value) (pairs.map fun p => (p.1, f p.2)) =
      (setPair key value pairs).map fun p => (p.1, f p.2) := by
  induction pairs with
  | nil => rfl
  | cons p r ih =>
    by_cases hp : p.1 = key
    · simp [setPair, hp]
    · simp [setPair, hp, ih]

theorem CacheKey.ofSelectors_inj {id id' : String} {base base' : Selector}
    {comparison comparison' : Option Selector}
    (h : ofSelectors id base comparison = ofSelectors id' base' comparison') :
    id = id' ∧ base.Same base' ∧ Option.Rel Selector.Same comparison comparison' := by
  unfold ofSelectors at h
  rw [CacheKey.mk.injEq] at h
  obtain ⟨hid, hb, hc⟩ := h
  refine ⟨hid, Selector.same_of_keyText hb, ?_⟩
  cases comparison with
  | none =>
    cases comparison' with
    | none => exact .none
    | some t => cases hc
  | some s =>
    cases comparison' with
    | none => cases hc
    | some t => exact .some (Selector.same_of_keyText (Option.some.inj hc))

namespace Engine
variable {e : Engine} {r : Report} {d d' : Dataset} {s t : Selector} {rows : List Row}

theorem column_eq_ok (h : s.Same t) (hd : d.movements = d'.movements)
    (hr : (e.column r d s).outcome = .ok rows) : (e.column r d' t).outcome = .ok rows := by
  unfold column at hr ⊢
  rw [Logged.outcome_bind, bind_eq_ok] at hr ⊢
  obtain ⟨movements, hm, hr⟩ := hr
  exact ⟨movements, h.restrict_eq_ok hd hm, hr⟩

theorem compared_eq_ok {comparison comparison' : Option Selector} {before : List Row}
    (h : Option.Rel Selector.Same comparison comparison') (hd : d.movements = d'.movements)
    (hr : (e.compared r d before comparison).outcome = .ok rows) :
    (e.compared r d' before comparison').outcome = .ok rows := by
  cases h with
  | none => exact hr
  | some h =>
    unfold compared at hr ⊢
    rw [Logged.outcome_bind, bind_eq_ok] at hr ⊢
    obtain ⟨others, ho, hr⟩ := hr
    exact ⟨others, column_eq_ok h hd ho, hr⟩

theorem displayed_eq {comparison comparison' : Option Selector}
    (h : Option.Rel Selector.Same comparison comparison') :
    e.displayed r comparison rows = e.displayed r comparison' rows := by
  cases h <;> rfl

theorem evaluateChecked_eq_ok {comparison comparison' : Option Selector} (hb : s.Same t)
    (hc : Option.Rel Selector.Same comparison comparison') (hd : d.movements = d'.movements)
    (hr : (e.evaluateChecked r d s comparison).outcome = .ok rows) :
    (e.evaluateChecked r d' t comparison').outcome = .ok rows := by
  unfold evaluateChecked at hr ⊢
  rw [Logged.outcome_bind, bind_eq_ok] at hr ⊢
  obtain ⟨base, hbase, hr⟩ := hr
  refine ⟨base, column_eq_ok hb hd hbase, ?_⟩
  rw [Logged.outcome_bind, bind_eq_ok] at hr ⊢
  obtain ⟨compared, hcompared, hr⟩ := hr
  refine ⟨compared, compared_eq_ok hc hd hcompared, ?_⟩
  rw [Logged.outcome_ofExcept] at hr ⊢
  rw [← displayed_eq hc]
  exact hr

end Engine

namespace Cache
variable {α : Type} {c : Cache α} {now computed : Instant} {k : CacheKey} {fingerprint : String}
  {rows : List α} {entry : CacheKey × CacheEntry α}

theorem mem_of_find_eq_fresh (h : c.find now k fingerprint = .fresh rows) :
    ∃ computed, (k, ⟨fingerprint, rows, computed⟩) ∈ c.entries := by
  unfold find at h
  split at h
  · cases h
  · rename_i kept hk
    split at h
    · cases h
    rename_i hf
    split at h
    · cases h
    cases h
    obtain ⟨p, hp, rfl⟩ := Option.map_eq_some_iff.1 hk
    have hkey : p.1 = k := by simpa using List.find?_some hp
    have hprint : p.2.fingerprint = fingerprint := Classical.not_not.1 hf
    refine ⟨p.2.computed, ?_⟩
    rw [← hkey, ← hprint]
    exact List.mem_of_find?_eq_some hp

theorem mem_of_mem_settle {found : Found α} (h : entry ∈ (c.settle k found).entries) :
    entry ∈ c.entries := by
  cases found with
  | fresh rows => exact h
  | absent => exact h
  | changed => exact (List.mem_filter.1 h).1
  | stale => exact (List.mem_filter.1 h).1

theorem mem_of_mem_set (h : entry ∈ (c.set now k fingerprint rows).entries) :
    entry ∈ c.entries ∨ entry = (k, ⟨fingerprint, rows, now⟩) :=
  mem_of_mem_setPair h

theorem mem_of_mem_redate (h : entry ∈ (c.redate k computed).entries) :
    ∃ before, (entry.1, ⟨entry.2.fingerprint, entry.2.rows, before⟩) ∈ c.entries := by
  obtain ⟨other, ho, rfl⟩ := List.mem_map.1 h
  refine ⟨other.2.computed, ?_⟩
  split
  · rename_i hk
    rw [← hk]
    exact ho
  · exact ho

theorem mem_of_mem_invalidate {id : String} (h : entry ∈ (c.invalidate id).entries) :
    entry ∈ c.entries ∧ entry.1.reportId ≠ id := by
  simpa [invalidate] using h

section Map
variable {β : Type} {f g : List α → List β}

def mapEntry (f : List α → List β) (entry : CacheEntry α) : CacheEntry β :=
  ⟨entry.fingerprint, f entry.rows, entry.computed⟩

def map (f : List α → List β) (c : Cache α) : Cache β :=
  ⟨c.maxAge, c.entries.map fun entry => (entry.1, mapEntry f entry.2), c.hits, c.misses⟩

def Found.map (f : List α → List β) : Found α → Found β
  | .fresh rows => .fresh (f rows)
  | .absent => .absent
  | .changed => .changed
  | .stale => .stale

theorem map_congr (h : ∀ entry ∈ c.entries, f entry.2.rows = g entry.2.rows) :
    c.map f = c.map g := by
  have he : c.entries.map (fun entry => (entry.1, mapEntry f entry.2)) =
      c.entries.map fun entry => (entry.1, mapEntry g entry.2) :=
    List.map_congr_left fun entry hm => by simp only [mapEntry, h entry hm]
  simp only [map, he]

theorem find_map (f : List α → List β) (c : Cache α) (now : Instant) (k : CacheKey)
    (fingerprint : String) :
    (c.map f).find now k fingerprint = (c.find now k fingerprint).map f := by
  have hget := getPair?_map_snd (mapEntry f) k c.entries
  have hstale : ∀ entry, (c.map f).isStale now (mapEntry f entry) = c.isStale now entry :=
    fun _ => rfl
  unfold find
  simp only [map] at hstale ⊢
  rw [hget]
  cases hk : getPair? k c.entries with
  | none => rfl
  | some entry =>
    simp only [Option.map_some, hstale]
    by_cases hf : entry.fingerprint = fingerprint
    · by_cases hs : c.isStale now entry <;> simp [mapEntry, hf, hs, Found.map]
    · simp [mapEntry, hf, Found.map]

theorem settle_map (f : List α → List β) (c : Cache α) (k : CacheKey) (found : Found α) :
    (c.map f).settle k (found.map f) = (c.settle k found).map f := by
  cases found with
  | fresh rows => rfl
  | absent => rfl
  | changed => simp [settle, Found.map, map, drop, List.filter_map, Function.comp_def]
  | stale => simp [settle, Found.map, map, drop, List.filter_map, Function.comp_def]

theorem set_map (f : List α → List β) (c : Cache α) (now : Instant) (k : CacheKey)
    (fingerprint : String) (rows : List α) :
    (c.map f).set now k fingerprint (f rows) = (c.set now k fingerprint rows).map f := by
  have hset := setPair_map_snd (mapEntry f) k ⟨fingerprint, rows, now⟩ c.entries
  simp only [mapEntry] at hset
  simp only [set, map, mapEntry, hset]

theorem invalidate_map (f : List α → List β) (c : Cache α) (id : String) :
    (c.map f).invalidate id = (c.invalidate id).map f := by
  simp [invalidate, map, List.filter_map, Function.comp_def]

theorem redate_map (f : List α → List β) (c : Cache α) (k : CacheKey) (computed : Instant) :
    (c.map f).redate k computed = (c.redate k computed).map f := by
  simp only [redate, map, List.map_map]
  congr 1
  refine List.map_congr_left fun entry _ => ?_
  by_cases hk : entry.1 = k <;> simp [hk, mapEntry]

end Map

end Cache
end LedgerReport
