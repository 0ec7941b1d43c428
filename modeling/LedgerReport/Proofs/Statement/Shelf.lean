import Mathlib.Data.List.Induction
import LedgerReport.Statement.Shelf
import LedgerReport.Proofs.Statement.Cache
/-!
A cache holds what was set last.

The lists of the cache are none of those that callers hold (`Shelf.Apart`), so the rows that it
keeps change only with what is done to the cache itself (`Shelf.contents_next`). An entry is thus
known from the history: it stems from the last step that set its key, and no later step ended it
(`Shelf.kept?_after`).
-/

set_option autoImplicit false

namespace LedgerReport

theorem mem_keys_iff {α β : Type} [DecidableEq α] {key : α} {pairs : List (α × β)} :
    key ∈ pairs.map (·.1) ↔ ∃ value, getPair? key pairs = some value := by
  constructor
  · intro h
    obtain ⟨p, hp, rfl⟩ := List.mem_map.1 h
    obtain ⟨value, hv, -⟩ := exists_getPair? (show (p.1, p.2) ∈ pairs from hp)
    exact ⟨value, hv⟩
  · rintro ⟨value, h⟩
    obtain ⟨p, hp, -⟩ := Option.map_eq_some_iff.1 h
    exact List.mem_map.2 ⟨p, List.mem_of_find?_eq_some hp, by simpa using List.find?_some hp⟩

theorem keys_setPair {α β : Type} [DecidableEq α] (key : α) (value : β) (pairs : List (α × β)) :
    (setPair key value pairs).map (·.1) =
      if key ∈ pairs.map (·.1) then pairs.map (·.1) else pairs.map (·.1) ++ [key] := by
  induction pairs with
  | nil => rfl
  | cons p r ih =>
    by_cases hp : p.1 = key
    · simp [setPair, hp]
    · rw [setPair, if_neg hp, List.map_cons, ih]
      by_cases hk : key ∈ r.map (·.1)
      · rw [if_pos hk, if_pos (by simpa using .inr (by simpa using hk)), List.map_cons]
      · rw [if_neg hk, if_neg (by simpa [Ne.symm hp] using hk), List.map_cons, List.cons_append]

theorem append_singleton_eq_append_cons {α : Type} {xs pre post : List α} {x y : α}
    (h : xs ++ [x] = pre ++ y :: post) :
    (xs = pre ∧ x = y ∧ post = []) ∨ ∃ post', post = post' ++ [x] ∧ xs = pre ++ y :: post' := by
  rcases List.eq_nil_or_concat post with rfl | ⟨post', z, rfl⟩
  · obtain ⟨hp, hx⟩ := List.append_inj' h rfl
    exact .inl ⟨hp, List.singleton_inj.1 hx, rfl⟩
  · rw [List.concat_eq_append, ← List.cons_append, ← List.append_assoc] at h
    obtain ⟨hp, hx⟩ := List.append_inj' h rfl
    rw [List.singleton_inj.1 hx]
    exact .inr ⟨post', List.concat_eq_append, hp⟩

namespace Cache
variable {α : Type} {c : Cache α}

def kept? (c : Cache α) (k : CacheKey) : Option (CacheEntry α) := getPair? k c.entries

theorem kept?_drop (k' k : CacheKey) :
    (c.drop k').kept? k = if k' = k then none else c.kept? k := by
  refine (getPair?_filter (fun key => decide (key ≠ k')) k c.entries).trans ?_
  by_cases h : k' = k
  · simp [h]
  · simp [h, Ne.symm h, kept?]

/-- A look-up that misses leaves no entry under its key; it changes no other entry. -/
theorem kept?_get (now : Instant) (k' k : CacheKey) (fingerprint : String) :
    (c.get now k' fingerprint).2.kept? k =
      if k' = k ∧ (c.get now k' fingerprint).1 = none then none else c.kept? k := by
  have hdrop : ∀ misses, ({ c.drop k' with misses } : Cache α).kept? k =
      if k' = k then none else c.kept? k := fun _ => kept?_drop k' k
  unfold get
  cases hf : c.find now k' fingerprint with
  | fresh rows => simp [Found.rows?, settle, kept?]
  | absent =>
    have hn : getPair? k' c.entries = none := by
      unfold find at hf
      cases hg : getPair? k' c.entries with
      | none => rfl
      | some e =>
        simp only [hg] at hf
        split at hf
        · cases hf
        · split at hf <;> cases hf
    simp only [Found.rows?, settle, and_true]
    split
    · rename_i hk
      exact hk ▸ hn
    · rfl
  | changed | stale =>
    simp only [Found.rows?, settle, and_true]
    exact hdrop _

theorem kept?_set (now : Instant) (k' k : CacheKey) (fingerprint : String) (rows : List α) :
    (c.set now k' fingerprint rows).kept? k =
      if k' = k then some ⟨fingerprint, rows, now⟩ else c.kept? k := by
  split
  · rename_i h
    subst h
    exact getPair?_setPair_self _ _ _
  · rename_i h
    exact getPair?_setPair_of_ne _ _ (Ne.symm h)

theorem kept?_invalidate (id : String) (k : CacheKey) :
    (c.invalidate id).kept? k = if id = k.reportId then none else c.kept? k := by
  refine (getPair?_filter (fun key => decide (key.reportId ≠ id)) k c.entries).trans ?_
  by_cases h : id = k.reportId
  · simp [h]
  · simp [h, Ne.symm h, kept?]

theorem kept?_clear (k : CacheKey) : c.clear.kept? k = none := rfl

theorem kept?_redate (k' k : CacheKey) (computed : Instant) :
    (c.redate k' computed).kept? k =
      if k' = k then (c.kept? k).map fun e => { e with computed } else c.kept? k := by
  unfold kept? redate getPair?
  induction c.entries with
  | nil => simp
  | cons e r ih =>
    by_cases hk : e.1 = k'
    · by_cases h : k' = k
      · simp [hk, h]
      · simpa [hk, h] using ih
    · by_cases he : e.1 = k
      · have h : k' ≠ k := fun h => hk (he.trans h.symm)
        simp [he, h, Ne.symm h]
      · simpa [hk, he] using ih

theorem get_eq_some_iff {now : Instant} {k : CacheKey} {fingerprint : String} {rows : List α} :
    (c.get now k fingerprint).1 = some rows ↔
      ∃ computed, c.kept? k = some ⟨fingerprint, rows, computed⟩ ∧
        ∀ limit, c.maxAge = some limit → limit.lt (.real (hours (now - computed))) = false := by
  have hstale : ∀ e, c.isStale now e = false ↔
      ∀ limit, c.maxAge = some limit → limit.lt (.real (hours (now - e.computed))) = false := by
    intro e
    unfold isStale
    cases c.maxAge with
    | none => simp
    | some limit => simp
  unfold get find kept?
  cases hg : getPair? k c.entries with
  | none => simp [Found.rows?]
  | some e =>
    obtain ⟨print, kept, computed⟩ := e
    have hs := hstale ⟨print, kept, computed⟩
    simp only [Option.some.injEq, CacheEntry.mk.injEq]
    by_cases hf : print = fingerprint
    · subst hf
      cases ht : c.isStale now ⟨print, kept, computed⟩ with
      | true =>
        simp only [ne_eq, not_true_eq_false, if_false, if_true, Found.rows?]
        refine ⟨nofun, ?_⟩
        rintro ⟨_, ⟨-, rfl, rfl⟩, hl⟩
        rw [hs.2 hl] at ht
        cases ht
      | false =>
        simp only [ne_eq, not_true_eq_false, if_false, Bool.false_eq_true, Found.rows?,
          Option.some.injEq]
        refine ⟨?_, ?_⟩
        · rintro rfl
          exact ⟨computed, ⟨trivial, rfl, rfl⟩, hs.1 ht⟩
        · rintro ⟨_, ⟨-, rfl, -⟩, -⟩
          rfl
    · simp [hf, Found.rows?]

theorem maxAge_get (now : Instant) (k : CacheKey) (fingerprint : String) :
    (c.get now k fingerprint).2.maxAge = c.maxAge := by
  unfold get
  cases c.find now k fingerprint <;> rfl

theorem nodup_keys_get (now : Instant) (k : CacheKey) (fingerprint : String)
    (h : (c.entries.map (·.1)).Nodup) :
    ((c.get now k fingerprint).2.entries.map (·.1)).Nodup := by
  unfold get
  cases c.find now k fingerprint with
  | fresh rows => exact h
  | absent => exact h
  | changed | stale => exact h.sublist (List.filter_sublist.map _)

theorem nodup_keys_set (now : Instant) (k : CacheKey) (fingerprint : String) (rows : List α)
    (h : (c.entries.map (·.1)).Nodup) :
    ((c.set now k fingerprint rows).entries.map (·.1)).Nodup := by
  unfold set
  rw [keys_setPair]
  split
  · exact h
  · rename_i hk
    refine List.nodup_append.2 ⟨h, by simp, ?_⟩
    rintro a ha b hb rfl
    exact hk (List.mem_singleton.1 hb ▸ ha)

theorem keys_redate (k : CacheKey) (computed : Instant) :
    (c.redate k computed).entries.map (·.1) = c.entries.map (·.1) := by
  unfold redate
  rw [List.map_map]
  refine List.map_congr_left fun e _ => ?_
  simp only [Function.comp_apply]
  split
  · rename_i hk
    exact hk.symm
  · rfl

theorem counts_get (now : Instant) (k : CacheKey) (fingerprint : String) :
    (c.get now k fingerprint).2.hits =
        c.hits + (if (c.get now k fingerprint).1.isSome then 1 else 0) ∧
      (c.get now k fingerprint).2.hits + (c.get now k fingerprint).2.misses =
        c.hits + c.misses + 1 := by
  unfold get
  cases c.find now k fingerprint <;> simp [Found.rows?, settle, drop] <;> omega

end Cache

namespace Shelf
variable {α : Type} {s : Shelf α}

def contents (s : Shelf α) : Cache α := s.cache.map s.read

/-- Whether the lists of the cache are none of those that callers hold. -/
structure Apart (s : Shelf α) : Prop where
  kept : ∀ entry ∈ s.cache.entries, ∀ n ∈ entry.2.rows, n < s.lists.length ∧ n ∉ s.held
  given : ∀ n ∈ s.held, n < s.lists.length

theorem apart_start (maxAge : Option Number) : (start maxAge : Shelf α).Apart := by
  constructor
  · intro entry hm
    cases hm
  · intro n hn
    cases hn

theorem read_congr {s s' : Shelf α} {numbers : List Nat}
    (h : ∀ n ∈ numbers, s.lists[n]? = s'.lists[n]?) : s.read numbers = s'.read numbers := by
  unfold read
  rw [List.flatMap_def, List.flatMap_def]
  refine congrArg List.flatten (List.map_congr_left fun n hn => ?_)
  rw [List.getD_eq_getElem?_getD, List.getD_eq_getElem?_getD, h n hn]

theorem Apart.of_subset {cache : Cache Nat} (h : s.Apart)
    (hc : ∀ entry ∈ cache.entries, ∃ other ∈ s.cache.entries, other.2.rows = entry.2.rows) :
    ({ s with cache } : Shelf α).Apart := by
  refine ⟨fun entry hm => ?_, h.given⟩
  obtain ⟨other, ho, hr⟩ := hc entry hm
  exact hr ▸ h.kept other ho

theorem Apart.give (h : s.Apart) (rows : List α) : (s.give rows).Apart := by
  refine ⟨fun entry hm n hn => ?_, fun n hn => ?_⟩
  · obtain ⟨hlt, hnot⟩ := h.kept entry hm n hn
    simp only [Shelf.give, List.length_append, List.length_singleton, List.mem_append,
      List.mem_singleton, not_or]
    exact ⟨by omega, hnot, by omega⟩
  · simp only [Shelf.give, List.length_append, List.length_singleton, List.mem_append,
      List.mem_singleton] at hn ⊢
    rcases hn with hn | rfl
    · have := h.given n hn
      omega
    · omega

theorem contents_give (h : s.Apart) (rows : List α) : (s.give rows).contents = s.contents := by
  refine Cache.map_congr fun entry hm => read_congr fun n hn => ?_
  exact List.getElem?_append_left (h.kept entry hm n hn).1

theorem Apart.keep (h : s.Apart) (now : Instant) (k : CacheKey) (fingerprint : String)
    (rows : List α) : (s.keep now k fingerprint rows).Apart := by
  refine ⟨fun entry hm n hn => ?_, fun n hn => ?_⟩
  · rcases Cache.mem_of_mem_set hm with hm | rfl
    · obtain ⟨hlt, hnot⟩ := h.kept entry hm n hn
      exact ⟨by simp only [Shelf.keep, List.length_append]; omega, hnot⟩
    · rw [List.mem_singleton.1 hn]
      refine ⟨by simp [Shelf.keep], fun hr => ?_⟩
      exact absurd (h.given _ hr) (Nat.lt_irrefl _)
  · have := h.given n hn
    simp only [Shelf.keep, List.length_append]
    omega

theorem contents_keep (h : s.Apart) (now : Instant) (k : CacheKey) (fingerprint : String)
    (rows : List α) :
    (s.keep now k fingerprint rows).contents = s.contents.set now k fingerprint rows := by
  have hnew : (s.keep now k fingerprint rows).read [s.lists.length] = rows := by
    simp [read, keep]
  unfold contents
  have hset := Cache.set_map (s.keep now k fingerprint rows).read s.cache now k fingerprint
    [s.lists.length]
  rw [hnew] at hset
  refine hset.symm.trans (congrArg (Cache.set · now k fingerprint rows) ?_)
  refine Cache.map_congr fun entry hm => read_congr fun n hn => ?_
  exact List.getElem?_append_left (h.kept entry hm n hn).1

theorem contents_edit (h : s.Apart) (i : Nat) (change : List α → List α) :
    (s.edit i change).contents = s.contents := by
  unfold edit
  cases hi : s.held[i]? with
  | none => rfl
  | some n =>
    refine Cache.map_congr fun entry hm => read_congr fun m hn => ?_
    have hne : m ≠ n := by
      rintro rfl
      exact (h.kept entry hm m hn).2 (List.mem_of_getElem? hi)
    exact List.getElem?_modify_ne change s.lists (Ne.symm hne)

theorem Apart.edit (h : s.Apart) (i : Nat) (change : List α → List α) :
    (s.edit i change).Apart := by
  unfold Shelf.edit
  cases hi : s.held[i]? with
  | none => exact h
  | some n =>
    refine ⟨fun entry hm m hn => ?_, fun m hn => ?_⟩
    · simpa using h.kept entry hm m hn
    · simpa using h.given m hn

theorem Apart.settle (h : s.Apart) (k : CacheKey) (found : Cache.Found Nat) :
    ({ s with cache := s.cache.settle k found } : Shelf α).Apart :=
  h.of_subset fun entry hm => ⟨entry, Cache.mem_of_mem_settle hm, rfl⟩

theorem contents_settle (s : Shelf α) (k : CacheKey) (found : Cache.Found Nat) :
    ({ s with cache := s.cache.settle k found } : Shelf α).contents =
      s.contents.settle k (found.map s.read) :=
  (Cache.settle_map s.read s.cache k found).symm

theorem get_mirrors (h : s.Apart) (now : Instant) (k : CacheKey) (fingerprint : String) :
    (s.get now k fingerprint).1 = (s.contents.get now k fingerprint).1 ∧
      (s.get now k fingerprint).2.contents = (s.contents.get now k fingerprint).2 ∧
      (s.get now k fingerprint).2.Apart := by
  have hfind : s.contents.find now k fingerprint = _ := Cache.find_map s.read s.cache now _ _
  have hsettled := h.settle k (s.cache.find now k fingerprint)
  have hcontents := contents_settle s k (s.cache.find now k fingerprint)
  unfold get Cache.get
  rw [hfind]
  cases hf : s.cache.find now k fingerprint with
  | fresh numbers =>
    rw [hf] at hsettled hcontents
    exact ⟨rfl, (contents_give hsettled _).trans hcontents, hsettled.give _⟩
  | absent | changed | stale =>
    rw [hf] at hsettled hcontents
    exact ⟨rfl, hcontents, hsettled⟩

def onContents (s : Shelf α) (c : Cache α) : CacheStep α → Cache α
  | .make _ | .edit .. => c
  | .get now k fingerprint => (c.get now k fingerprint).2
  | .set now k fingerprint i => c.set now k fingerprint (s.rowsAt i)
  | .invalidate reportId => c.invalidate reportId
  | .clear => c.clear
  | .age k computed => c.redate k computed

theorem contents_next (h : s.Apart) (step : CacheStep α) :
    (s.next step).contents = s.onContents s.contents step ∧ (s.next step).Apart := by
  cases step with
  | make rows => exact ⟨contents_give h rows, h.give rows⟩
  | edit i change => exact ⟨contents_edit h i change, h.edit i change⟩
  | get now k fingerprint => exact (get_mirrors h now k fingerprint).2
  | set now k fingerprint i => exact ⟨contents_keep h _ _ _ _, h.keep _ _ _ _⟩
  | invalidate id =>
    refine ⟨(Cache.invalidate_map s.read s.cache id).symm, h.of_subset fun entry hm => ?_⟩
    exact ⟨entry, (Cache.mem_of_mem_invalidate hm).1, rfl⟩
  | clear => exact ⟨rfl, h.of_subset fun entry hm => nomatch hm⟩
  | age k computed =>
    refine ⟨(Cache.redate_map s.read s.cache k computed).symm, h.of_subset fun entry hm => ?_⟩
    obtain ⟨before, hm⟩ := Cache.mem_of_mem_redate hm
    exact ⟨_, hm, rfl⟩

end Shelf

/-- Whether a step ends what there is under a key: it sets the key, drops it, or looks for it and
finds nothing. -/
def CacheStep.Ends {α : Type} (s : Shelf α) (k : CacheKey) : CacheStep α → Prop
  | .set _ k' _ _ => k' = k
  | .invalidate id => id = k.reportId
  | .clear => True
  | .get now k' fingerprint => k' = k ∧ (s.get now k' fingerprint).1 = none
  | _ => False

def CacheStep.dated {α : Type} (k : CacheKey) (computed : Instant) : CacheStep α → Instant
  | .age k' other => if k' = k then other else computed
  | _ => computed

namespace Shelf
variable {α : Type} {s : Shelf α} {step : CacheStep α} {k : CacheKey} {e : CacheEntry α}

/-- Whether an entry is what the last step that set a key put there, and no later step ended it. -/
def SetLast (maxAge : Option Number) (before : List (CacheStep α)) (k : CacheKey)
    (e : CacheEntry α) : Prop :=
  ∃ earlier now i since, before = earlier ++ .set now k e.fingerprint i :: since ∧
    e.rows = (after maxAge earlier).rowsAt i ∧
    e.computed = since.foldl (CacheStep.dated k) now ∧
    ∀ pre step post, since = pre ++ step :: post →
      ¬ step.Ends (after maxAge (earlier ++ .set now k e.fingerprint i :: pre)) k

theorem after_append (maxAge : Option Number) (before : List (CacheStep α)) (step : CacheStep α) :
    after maxAge (before ++ [step]) = (after maxAge before).next step := by
  simp [after]

theorem kept?_next (h : s.Apart) (hn : ¬ step.Ends s k) :
    (s.next step).contents.kept? k =
      (s.contents.kept? k).map fun e => { e with computed := step.dated k e.computed } := by
  rw [(contents_next h step).1]
  cases step with
  | make rows => simp [onContents, CacheStep.dated]
  | edit i change => simp [onContents, CacheStep.dated]
  | get now k' fingerprint =>
    have hmiss : ¬ (k' = k ∧ (s.contents.get now k' fingerprint).1 = none) := by
      rw [← (get_mirrors h now k' fingerprint).1]
      exact hn
    simp [onContents, CacheStep.dated, Cache.kept?_get, hmiss]
  | set now k' fingerprint i =>
    have hk : k' ≠ k := hn
    simp [onContents, CacheStep.dated, Cache.kept?_set, hk]
  | invalidate id =>
    have hid : id ≠ k.reportId := hn
    simp [onContents, CacheStep.dated, Cache.kept?_invalidate, hid]
  | clear => exact absurd trivial hn
  | age k' computed =>
    simp only [onContents, CacheStep.dated, Cache.kept?_redate]
    by_cases hk : k' = k <;> simp [hk]

theorem kept?_next_of_ends (h : s.Apart) (he : step.Ends s k) :
    (s.next step).contents.kept? k = none ∨ ∃ now fingerprint i,
      step = .set now k fingerprint i ∧
        (s.next step).contents.kept? k = some ⟨fingerprint, s.rowsAt i, now⟩ := by
  rw [(contents_next h step).1]
  cases step with
  | make rows => exact he.elim
  | edit i change => exact he.elim
  | get now k' fingerprint =>
    have hmiss : k' = k ∧ (s.contents.get now k' fingerprint).1 = none := by
      rw [← (get_mirrors h now k' fingerprint).1]
      exact he
    exact .inl (by simp only [onContents, Cache.kept?_get, if_pos hmiss])
  | set now k' fingerprint i =>
    cases he
    exact .inr ⟨now, fingerprint, i, rfl, by simp only [onContents, Cache.kept?_set, if_true]⟩
  | invalidate id =>
    have hid : id = k.reportId := he
    exact .inl (by simp only [onContents, Cache.kept?_invalidate, if_pos hid])
  | clear => exact .inl (Cache.kept?_clear k)
  | age k' computed => exact he.elim

/-- What is under a key after a step was put there by it, or was there before and is not ended. -/
theorem kept?_next_eq_some_iff (h : s.Apart) :
    (s.next step).contents.kept? k = some e ↔
      (∃ now i, step = .set now k e.fingerprint i ∧ e.rows = s.rowsAt i ∧ e.computed = now) ∨
      ¬ step.Ends s k ∧ ∃ computed, s.contents.kept? k = some { e with computed } ∧
        e.computed = step.dated k computed := by
  by_cases he : step.Ends s k
  · rcases kept?_next_of_ends h he with hnone | ⟨now, fingerprint, i, rfl, hsome⟩
    · rw [hnone]
      refine ⟨nofun, ?_⟩
      rintro (⟨now, i, rfl, -, -⟩ | ⟨hn, -⟩)
      · rw [(contents_next h _).1] at hnone
        simp [onContents, Cache.kept?_set] at hnone
      · exact absurd he hn
    · rw [hsome]
      constructor
      · intro hs
        cases hs
        exact .inl ⟨now, i, rfl, rfl, rfl⟩
      · rintro (⟨now', i', hs, hr, hc⟩ | ⟨hn, -⟩)
        · cases hs
          rw [← hr, ← hc]
        · exact absurd he hn
  · rw [kept?_next h he, Option.map_eq_some_iff]
    constructor
    · rintro ⟨e', h', rfl⟩
      exact .inr ⟨he, e'.computed, h', rfl⟩
    · rintro (⟨now, i, rfl, -, -⟩ | ⟨-, computed, h', hc⟩)
      · exact absurd rfl he
      · exact ⟨_, h', by rw [← hc]⟩

theorem setLast_append_iff {maxAge : Option Number} {before : List (CacheStep α)} :
    SetLast maxAge (before ++ [step]) k e ↔
      (∃ now i, step = .set now k e.fingerprint i ∧
        e.rows = (after maxAge before).rowsAt i ∧ e.computed = now) ∨
      ¬ step.Ends (after maxAge before) k ∧ ∃ computed,
        SetLast maxAge before k { e with computed } ∧ e.computed = step.dated k computed := by
  constructor
  · rintro ⟨earlier, now, i, since, hb, hr, hc, hends⟩
    rcases append_singleton_eq_append_cons hb with ⟨rfl, rfl, rfl⟩ | ⟨since, rfl, rfl⟩
    · exact .inl ⟨now, i, rfl, hr, hc⟩
    · refine .inr ⟨hends since step [] rfl, since.foldl (CacheStep.dated k) now, ?_, ?_⟩
      · refine ⟨earlier, now, i, since, rfl, hr, rfl, fun pre other post hs => ?_⟩
        exact hends pre other (post ++ [step]) (by rw [hs]; simp)
      · rw [hc, List.foldl_append]
        rfl
  · rintro (⟨now, i, rfl, hr, hc⟩ |
      ⟨hn, computed, ⟨earlier, now, i, since, rfl, hr, hc, hends⟩, hd⟩)
    · exact ⟨before, now, i, [], rfl, hr, hc, by simp⟩
    · refine ⟨earlier, now, i, since ++ [step], by simp, hr, ?_, fun pre other post hs => ?_⟩
      · rw [List.foldl_append, ← hc]
        exact hd
      · rcases append_singleton_eq_append_cons hs with ⟨rfl, rfl, rfl⟩ | ⟨post', rfl, rfl⟩
        · exact hn
        · exact hends pre other post' rfl

theorem apart_after (maxAge : Option Number) (before : List (CacheStep α)) :
    (after maxAge before).Apart := by
  induction before using List.reverseRecOn with
  | nil => exact apart_start maxAge
  | append_singleton before step ih =>
    rw [after_append]
    exact (contents_next ih step).2

theorem kept?_after (maxAge : Option Number) (before : List (CacheStep α)) (k : CacheKey)
    (e : CacheEntry α) :
    (after maxAge before).contents.kept? k = some e ↔ SetLast maxAge before k e := by
  induction before using List.reverseRecOn generalizing e with
  | nil =>
    refine ⟨nofun, ?_⟩
    rintro ⟨earlier, now, i, since, hb, -⟩
    simp at hb
  | append_singleton before step ih =>
    rw [after_append, kept?_next_eq_some_iff (apart_after maxAge before), setLast_append_iff]
    simp only [ih]

theorem mem_keys (s : Shelf α) (k : CacheKey) :
    k ∈ s.keys ↔ ∃ e, s.contents.kept? k = some e := by
  have hkeys : s.keys = s.contents.entries.map (·.1) := by
    simp [keys, contents, Cache.map]
  rw [hkeys]
  exact mem_keys_iff

theorem cache_edit (s : Shelf α) (i : Nat) (change : List α → List α) :
    (s.edit i change).cache = s.cache := by
  unfold edit
  split <;> rfl

theorem cache_get (s : Shelf α) (now : Instant) (k : CacheKey) (fingerprint : String) :
    (s.get now k fingerprint).2.cache = (s.cache.get now k fingerprint).2 := by
  unfold get
  cases hg : s.cache.get now k fingerprint with
  | mk found cache => cases found <;> rfl

theorem nodup_keys_next (h : s.keys.Nodup) : (s.next step).keys.Nodup := by
  cases step with
  | make rows => exact h
  | edit i change =>
    simp only [next, keys, cache_edit]
    exact h
  | get now k fingerprint =>
    simp only [next, keys, cache_get]
    exact Cache.nodup_keys_get now k fingerprint h
  | set now k fingerprint i => exact Cache.nodup_keys_set now k fingerprint _ h
  | invalidate id => exact h.sublist (List.filter_sublist.map _)
  | clear => exact .nil
  | age k computed =>
    have hkeys : (s.next (.age k computed)).keys = s.keys := Cache.keys_redate k computed
    exact hkeys.symm ▸ h

theorem nodup_keys_after (maxAge : Option Number) (before : List (CacheStep α)) :
    (after maxAge before).keys.Nodup := by
  induction before using List.reverseRecOn with
  | nil => exact .nil
  | append_singleton before step ih =>
    rw [after_append]
    exact nodup_keys_next ih

theorem maxAge_next (s : Shelf α) (step : CacheStep α) :
    (s.next step).cache.maxAge = s.cache.maxAge := by
  cases step with
  | edit i change => simp only [next, cache_edit]
  | get now k fingerprint =>
    simp only [next, cache_get]
    exact Cache.maxAge_get now k fingerprint
  | _ => rfl

theorem maxAge_after (maxAge : Option Number) (before : List (CacheStep α)) :
    (after maxAge before).cache.maxAge = maxAge := by
  induction before using List.reverseRecOn with
  | nil => rfl
  | append_singleton before step ih => rw [after_append, maxAge_next, ih]

theorem get_after_eq_some_iff (maxAge : Option Number) (before : List (CacheStep α))
    (now : Instant) (k : CacheKey) (fingerprint : String) (rows : List α) :
    ((after maxAge before).get now k fingerprint).1 = some rows ↔
      ∃ computed, SetLast maxAge before k ⟨fingerprint, rows, computed⟩ ∧
        ∀ limit, maxAge = some limit → limit.lt (.real (Cache.hours (now - computed))) = false := by
  have hmax : (after maxAge before).contents.maxAge = maxAge := maxAge_after maxAge before
  rw [(get_mirrors (apart_after maxAge before) now k fingerprint).1, Cache.get_eq_some_iff, hmax]
  simp only [kept?_after]

theorem counts_next (s : Shelf α) (step : CacheStep α) :
    (s.next step).cache.hits = s.cache.hits + (s.answer? step).toList.countP Option.isSome ∧
      (s.next step).cache.hits + (s.next step).cache.misses =
        s.cache.hits + s.cache.misses + if step.isGet then 1 else 0 := by
  cases step with
  | get now k fingerprint =>
    have hfound :
        (s.get now k fingerprint).1.isSome = (s.cache.get now k fingerprint).1.isSome := by
      unfold get
      cases hg : s.cache.get now k fingerprint with
      | mk found cache => cases found <;> rfl
    obtain ⟨hh, hm⟩ := Cache.counts_get (c := s.cache) now k fingerprint
    simp only [next, cache_get, answer?, Option.toList_some, List.countP_singleton, hfound,
      CacheStep.isGet, if_true]
    exact ⟨hh, hm⟩
  | edit i change =>
    simp only [next, cache_edit]
    exact ⟨rfl, rfl⟩
  | _ => exact ⟨rfl, rfl⟩

theorem counts_foldl (s : Shelf α) (steps : List (CacheStep α)) :
    (steps.foldl next s).cache.hits = s.cache.hits + (s.answers steps).countP Option.isSome ∧
      (steps.foldl next s).cache.hits + (steps.foldl next s).cache.misses =
        s.cache.hits + s.cache.misses + steps.countP CacheStep.isGet := by
  induction steps generalizing s with
  | nil => exact ⟨rfl, rfl⟩
  | cons step steps ih =>
    obtain ⟨hhits, hall⟩ := ih (s.next step)
    obtain ⟨hhit, hone⟩ := counts_next s step
    rw [List.foldl_cons, answers, List.countP_append, List.countP_cons]
    omega

theorem keys_invalidate (s : Shelf α) (id : String) :
    (s.invalidate id).1 = (s.keys.filter fun k => k.reportId = id).length ∧
      (s.invalidate id).2.keys = s.keys.filter fun k => k.reportId ≠ id := by
  constructor
  · simp only [invalidate, Cache.count, keys, List.filter_map, List.length_map]
    rfl
  · simp only [invalidate, Cache.invalidate, keys, List.filter_map]
    rfl

/-- A cache among its callers behaves as a map from keys to what was set last: a look-up finds the
rows that the last step to set its key put there, as they were then, if the fingerprint is the same,
no later step ended the entry and it is not too old. Look-ups are counted as hits and misses. The
size is the number of keys that were set last and not ended; dropping a report removes its keys,
clearing removes all, and both tell how many there were. -/
theorem after_holds_setLast (maxAge : Option Number) (before : List (CacheStep α)) :
    (∀ now k fingerprint rows, ((after maxAge before).get now k fingerprint).1 = some rows ↔
      ∃ computed, SetLast maxAge before k ⟨fingerprint, rows, computed⟩ ∧
        ∀ limit, maxAge = some limit →
          limit.lt (.real (Cache.hours (now - computed))) = false) ∧
    ((after maxAge before).cache.hits + (after maxAge before).cache.misses =
        before.countP CacheStep.isGet ∧
      (after maxAge before).cache.hits = ((start maxAge).answers before).countP Option.isSome) ∧
    ((after maxAge before).keys.Nodup ∧
      (∀ k, k ∈ (after maxAge before).keys ↔ ∃ e, SetLast maxAge before k e) ∧
      (after maxAge before).cache.size = (after maxAge before).keys.length) ∧
    (∀ id, ((after maxAge before).invalidate id).1 =
        ((after maxAge before).keys.filter fun k => k.reportId = id).length ∧
      ((after maxAge before).invalidate id).2.keys =
        (after maxAge before).keys.filter fun k => k.reportId ≠ id) ∧
    (after maxAge before).clear.1 = (after maxAge before).keys.length ∧
    (after maxAge before).clear.2.keys = [] := by
  have hsize : (after maxAge before).cache.size = (after maxAge before).keys.length := by
    simp [Cache.size, keys]
  obtain ⟨hhits, hall⟩ := counts_foldl (start maxAge) before
  refine ⟨get_after_eq_some_iff maxAge before, ⟨?_, ?_⟩,
    ⟨nodup_keys_after maxAge before, ?_, hsize⟩, keys_invalidate _, hsize, rfl⟩
  · exact hall.trans (Nat.zero_add _)
  · exact hhits.trans (Nat.zero_add _)
  · intro k
    rw [mem_keys]
    simp only [kept?_after]

end Shelf
end LedgerReport
