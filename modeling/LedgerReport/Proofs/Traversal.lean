import Mathlib.Data.List.Forall2
import LedgerReport.Logged
set_option autoImplicit false

namespace LedgerReport
variable {α β σ ε : Type}

theorem bind_eq_ok {x : Except ε α} {f : α → Except ε β} {b : β} :
    (x >>= f) = .ok b ↔ ∃ a, x = .ok a ∧ f a = .ok b := by
  cases x with
  | error e => simp [bind, Except.bind]
  | ok a => simp [bind, Except.bind]

theorem bind_eq_error {x : Except ε α} {f : α → Except ε β} {e : ε} :
    (x >>= f) = .error e ↔ x = .error e ∨ ∃ a, x = .ok a ∧ f a = .error e := by
  cases x with
  | error e => simp [bind, Except.bind]
  | ok a => simp [bind, Except.bind]

theorem except_map_eq_ok {x : Except ε α} {f : α → β} {b : β} :
    x.map f = .ok b ↔ ∃ a, x = .ok a ∧ f a = b := by
  cases x with
  | error e => simp [Except.map]
  | ok a => simp [Except.map]

theorem eq_ok_of_toOption {x : Except ε α} {a : α} (h : x.toOption = some a) : x = .ok a := by
  cases x with
  | ok b => exact congrArg Except.ok (Option.some.inj h)
  | error e => cases h

theorem exists_of_isOk {x : Except ε α} (h : x.isOk = true) : ∃ a, x = .ok a := by
  cases x with
  | ok a => exact ⟨a, rfl⟩
  | error e => cases h

theorem foldlM_ok {step : σ → α → Except ε σ} {xs : List α}
    (h : ∀ s, ∀ x ∈ xs, ∃ t, step s x = .ok t) (s : σ) : ∃ t, xs.foldlM step s = .ok t := by
  induction xs generalizing s with
  | nil => exact ⟨s, rfl⟩
  | cons x xs ih =>
    obtain ⟨t, ht⟩ := h s x (by simp)
    obtain ⟨u, hu⟩ := ih (fun s y hy => h s y (by simp [hy])) t
    exact ⟨u, by simp only [List.foldlM_cons, ht, bind, Except.bind, hu]⟩

theorem foldlM_error {step : σ → α → Except ε σ} (fault : ε → Prop) {xs : List α} {s : σ} {e : ε}
    (h : ∀ s, ∀ x ∈ xs, ∀ e, step s x = .error e → fault e) (hf : xs.foldlM step s = .error e) :
    fault e := by
  induction xs generalizing s with
  | nil => cases hf
  | cons x xs ih =>
    rw [List.foldlM_cons] at hf
    cases hx : step s x with
    | error e' =>
      simp only [hx, bind, Except.bind, Except.error.injEq] at hf
      exact hf ▸ h s x (by simp) e' hx
    | ok t =>
      simp only [hx, bind, Except.bind] at hf
      exact ih (fun s y hy => h s y (by simp [hy])) hf

theorem forM_eq_ok {f : α → Except ε Unit} {xs : List α} :
    xs.forM f = .ok () ↔ ∀ x ∈ xs, f x = .ok () := by
  induction xs with
  | nil => simp [List.forM, pure, Except.pure]
  | cons x xs ih =>
    change (f x >>= fun _ => xs.forM f) = _ ↔ _
    rw [bind_eq_ok]
    simp only [ih, List.mem_cons, forall_eq_or_imp]
    constructor
    · rintro ⟨⟨⟩, hx, hxs⟩
      exact ⟨hx, hxs⟩
    · rintro ⟨hx, hxs⟩
      exact ⟨_, hx, hxs⟩

theorem forM_error {f : α → Except ε Unit} (fault : ε → Prop) {xs : List α} {e : ε}
    (h : ∀ x ∈ xs, ∀ e, f x = .error e → fault e) (hf : xs.forM f = .error e) : fault e := by
  induction xs with
  | nil => cases hf
  | cons x xs ih =>
    change (f x >>= fun _ => xs.forM f) = _ at hf
    cases hx : f x with
    | error e' =>
      simp only [hx, bind, Except.bind, Except.error.injEq] at hf
      exact hf ▸ h x (by simp) e' hx
    | ok =>
      simp only [hx, bind, Except.bind] at hf
      exact ih (fun y hy => h y (by simp [hy])) hf

theorem exists_first {P : α → Prop} {xs : List α} (h : ∃ x ∈ xs, ¬ P x) :
    ∃ pre x rest, xs = pre ++ x :: rest ∧ (∀ y ∈ pre, P y) ∧ ¬ P x := by
  induction xs with
  | nil => simp at h
  | cons x xs ih =>
    by_cases hx : P x
    · have hrest : ∃ y ∈ xs, ¬ P y := by
        obtain ⟨y, hy, hn⟩ := h
        rcases List.mem_cons.1 hy with rfl | hy
        · exact absurd hx hn
        · exact ⟨y, hy, hn⟩
      obtain ⟨pre, y, rest, rfl, hpre, hy⟩ := ih hrest
      refine ⟨x :: pre, y, rest, rfl, fun z hz => ?_, hy⟩
      rcases List.mem_cons.1 hz with rfl | hz
      · exact hx
      · exact hpre z hz
    · exact ⟨[], x, xs, rfl, by simp, hx⟩

theorem mapM_ok {f : α → Except ε β} {xs : List α} (h : ∀ x ∈ xs, ∃ y, f x = .ok y) :
    ∃ ys, xs.mapM f = .ok ys := by
  induction xs with
  | nil => exact ⟨[], rfl⟩
  | cons x xs ih =>
    obtain ⟨y, hy⟩ := h x (by simp)
    obtain ⟨ys, hys⟩ := ih fun z hz => h z (by simp [hz])
    exact ⟨y :: ys, by simp only [List.mapM_cons, hy, hys, bind, Except.bind, pure, Except.pure]⟩

theorem mapM_eq_map {f : α → Except ε β} {g : α → β} {xs : List α}
    (h : ∀ x ∈ xs, f x = .ok (g x)) : xs.mapM f = .ok (xs.map g) := by
  induction xs with
  | nil => rfl
  | cons x xs ih =>
    rw [List.mapM_cons, h x (by simp), ih fun y hy => h y (by simp [hy])]
    rfl

/-- A traversal gives what another one gives, which succeeds, exactly if all its steps do. -/
theorem mapM_eq_mapM_iff {f g : α → Except ε β} {xs : List α} (h : ∀ x ∈ xs, ∃ y, f x = .ok y) :
    xs.mapM g = xs.mapM f ↔ ∀ x ∈ xs, g x = f x := by
  induction xs with
  | nil => simp
  | cons x xs ih =>
    have hrest : ∀ z ∈ xs, ∃ y, f z = .ok y := fun z hz => h z (by simp [hz])
    obtain ⟨y, hy⟩ := h x (by simp)
    obtain ⟨ys, hys⟩ := mapM_ok hrest
    have hall : (x :: xs).mapM f = .ok (y :: ys) := by
      rw [List.mapM_cons, hy, hys]
      rfl
    rw [List.forall_mem_cons, ← ih hrest, hall, hy, hys, List.mapM_cons]
    constructor
    · intro hg
      obtain ⟨y', hy', hg⟩ := bind_eq_ok.1 hg
      obtain ⟨ys', hys', hg⟩ := bind_eq_ok.1 hg
      cases hg
      exact ⟨hy', hys'⟩
    · rintro ⟨hx, hxs⟩
      rw [hx, hxs]
      rfl

/-- The steps of a traversal that succeeds succeed, and it keeps their results in their order. -/
theorem forall₂_of_mapM_eq_ok {f : α → Except ε β} {xs : List α} {ys : List β}
    (h : xs.mapM f = .ok ys) : List.Forall₂ (fun x y => f x = .ok y) xs ys := by
  induction xs generalizing ys with
  | nil =>
    cases h
    exact .nil
  | cons x xs ih =>
    rw [List.mapM_cons, bind_eq_ok] at h
    obtain ⟨y, hy, h⟩ := h
    obtain ⟨zs, hzs, h⟩ := bind_eq_ok.1 h
    cases h
    exact .cons hy (ih hzs)

theorem mapM_eq_ok_of_forall₂ {f : α → Except ε β} {xs : List α} {ys : List β}
    (h : List.Forall₂ (fun x y => f x = .ok y) xs ys) : xs.mapM f = .ok ys := by
  induction h with
  | nil => rfl
  | cons hx _ ih =>
    rw [List.mapM_cons, hx, ih]
    rfl

theorem exists_of_forall₂ {R : α → β → Prop} {xs : List α} {ys : List β}
    (h : List.Forall₂ R xs ys) : ∀ x ∈ xs, ∃ y ∈ ys, R x y := by
  induction h with
  | nil => simp
  | @cons x y xs ys hy _ ih =>
    intro z hz
    rcases List.mem_cons.1 hz with rfl | hz
    · exact ⟨y, by simp, hy⟩
    · obtain ⟨w, hw, hr⟩ := ih z hz
      exact ⟨w, by simp [hw], hr⟩

theorem forall₂_of_length {R : α → β → Prop} {xs : List α} {ys : List β}
    (hlength : ys.length = xs.length) (h : ∀ x, ∀ y ∈ ys, R x y) : List.Forall₂ R xs ys :=
  List.forall₂_iff_get.2 ⟨hlength.symm, fun i _ hi => h _ _ (List.get_mem ys ⟨i, hi⟩)⟩

theorem map_eq_of_forall₂ {γ : Type} {R : α → β → Prop} {g : α → γ} {k : β → γ}
    (hR : ∀ x y, R x y → k y = g x) {xs : List α} {ys : List β} (h : List.Forall₂ R xs ys) :
    ys.map k = xs.map g := by
  induction h with
  | nil => rfl
  | cons hy _ ih => rw [List.map_cons, List.map_cons, hR _ _ hy, ih]

theorem forall₂_comp {γ : Type} {R : α → β → Prop} {S : β → γ → Prop} {T : α → γ → Prop}
    (hT : ∀ x y z, R x y → S y z → T x z) {xs : List α} {ys : List β} {zs : List γ}
    (h : List.Forall₂ R xs ys) (h' : List.Forall₂ S ys zs) : List.Forall₂ T xs zs := by
  induction h generalizing zs with
  | nil =>
    cases h'
    exact .nil
  | cons hx _ ih =>
    cases h' with
    | cons hy hrest => exact .cons (hT _ _ _ hx hy) (ih hrest)

theorem forall₂_replace {R : α → β → Prop} {y z : β} {pre post : List β} {xs : List α}
    (hR : ∀ x, R x y → R x z) (h : List.Forall₂ R xs (pre ++ y :: post)) :
    List.Forall₂ R xs (pre ++ z :: post) := by
  induction pre generalizing xs with
  | nil =>
    cases h with
    | cons hy hpost => exact .cons (hR _ hy) hpost
  | cons w pre ih =>
    cases h with
    | cons hw hrest => exact .cons hw (ih hrest)

theorem forall₂_filterMap {f : α → Option β} {xs : List α}
    (h : (xs.filterMap f).length = xs.length) :
    List.Forall₂ (fun x y => f x = some y) xs (xs.filterMap f) := by
  induction xs with
  | nil => exact .nil
  | cons x xs ih =>
    have hle := List.length_filterMap_le f xs
    cases hx : f x with
    | none =>
      rw [List.filterMap_cons_none hx, List.length_cons] at h
      omega
    | some y =>
      rw [List.filterMap_cons_some hx, List.length_cons, List.length_cons] at h
      rw [List.filterMap_cons_some hx]
      exact .cons hx (ih (by omega))

/-- Steps of which each succeeds with something related to an item give such things in order. -/
theorem exists_mapM_of_forall₂ {γ : Type} {f : β → Except ε γ} {R : α → γ → Prop} {xs : List α}
    {ys : List β} (h : List.Forall₂ (fun x y => ∃ z, f y = .ok z ∧ R x z) xs ys) :
    ∃ zs, ys.mapM f = .ok zs ∧ List.Forall₂ R xs zs := by
  induction h with
  | nil => exact ⟨[], rfl, .nil⟩
  | cons hx _ ih =>
    obtain ⟨z, hz, hr⟩ := hx
    obtain ⟨zs, hzs, hrs⟩ := ih
    refine ⟨z :: zs, ?_, .cons hr hrs⟩
    rw [List.mapM_cons, hz, hzs]
    rfl

/-- What is related to items without repetition in their order is the values of a function. -/
theorem exists_map_of_forall₂ [DecidableEq α] [Inhabited β] {R : α → β → Prop} {xs : List α}
    {ys : List β} (hn : xs.Nodup) (h : List.Forall₂ R xs ys) :
    ∃ g : α → β, ys = xs.map g ∧ ∀ x ∈ xs, R x (g x) := by
  induction h with
  | nil => exact ⟨fun _ => default, rfl, nofun⟩
  | @cons x y xs ys hy _ ih =>
    obtain ⟨hx, hrest⟩ := List.nodup_cons.1 hn
    obtain ⟨g, rfl, hg⟩ := ih hrest
    have hkept : ∀ z ∈ xs, Function.update g x y z = g z := by
      intro z hz
      refine Function.update_of_ne ?_ y g
      rintro rfl
      exact hx hz
    refine ⟨Function.update g x y, ?_, fun z hz => ?_⟩
    · rw [List.map_cons, Function.update_self, List.map_congr_left hkept]
    · rcases List.mem_cons.1 hz with rfl | hz
      · rwa [Function.update_self]
      · rw [hkept z hz]
        exact hg z hz

theorem exists_of_mapM_eq_ok {f : α → Except ε β} {xs : List α} {ys : List β}
    (h : xs.mapM f = .ok ys) : ∀ x ∈ xs, ∃ y ∈ ys, f x = .ok y :=
  exists_of_forall₂ (forall₂_of_mapM_eq_ok h)

theorem exists_of_mem_mapM {f : α → Except ε β} {xs : List α} {ys : List β}
    (h : xs.mapM f = .ok ys) : ∀ y ∈ ys, ∃ x ∈ xs, f x = .ok y :=
  exists_of_forall₂ (forall₂_of_mapM_eq_ok h).flip

/-- What is known of each step holds of all results exactly if it does of all that they come
from. -/
theorem forall_iff_of_mapM {f : α → Except ε β} {P : α → Prop} {Q : β → Prop}
    (hf : ∀ x y, f x = .ok y → (Q y ↔ P x)) {xs : List α} {ys : List β}
    (h : xs.mapM f = .ok ys) : (∀ y ∈ ys, Q y) ↔ ∀ x ∈ xs, P x := by
  constructor
  · intro hQ x hx
    obtain ⟨y, hy, hxy⟩ := exists_of_mapM_eq_ok h x hx
    exact (hf x y hxy).1 (hQ y hy)
  · intro hP y hy
    obtain ⟨x, hx, hxy⟩ := exists_of_mem_mapM h y hy
    exact (hf x y hxy).2 (hP x hx)

/-- A traversal that succeeds does so in any order, and gives its results in that order. -/
theorem mapM_perm {f : α → Except ε β} {xs xs' : List α} {ys : List β} (hp : xs'.Perm xs)
    (h : xs.mapM f = .ok ys) : ∃ ys', ys'.Perm ys ∧ xs'.mapM f = .ok ys' := by
  induction hp generalizing ys with
  | nil => exact ⟨ys, .refl ys, h⟩
  | cons x _ ih =>
    rw [List.mapM_cons, bind_eq_ok] at h
    obtain ⟨y, hy, h⟩ := h
    obtain ⟨zs, hzs, h⟩ := bind_eq_ok.1 h
    cases h
    obtain ⟨zs', hp, hzs'⟩ := ih hzs
    refine ⟨y :: zs', hp.cons y, ?_⟩
    simp only [List.mapM_cons, hy, hzs', bind, Except.bind, pure, Except.pure]
  | swap x y xs =>
    simp only [List.mapM_cons, bind_eq_ok] at h
    obtain ⟨u, hu, ws, ⟨v, hv, zs, hzs, hw⟩, h⟩ := h
    cases hw
    cases h
    refine ⟨v :: u :: zs, .swap u v zs, ?_⟩
    simp only [List.mapM_cons, hu, hv, hzs, bind, Except.bind, pure, Except.pure]
  | trans _ _ ih ih' =>
    obtain ⟨ws, hw, hws⟩ := ih' h
    obtain ⟨zs, hz, hzs⟩ := ih hws
    exact ⟨zs, hz.trans hw, hzs⟩

/-- What holds of every item that a step gives holds of all items that the traversal gives. -/
theorem forall_mem_flatten_of_mapM {f : α → Except ε (List β)} {P : β → Prop}
    {xs : List α} {yss : List (List β)} (h : xs.mapM f = .ok yss)
    (hf : ∀ x ∈ xs, ∀ ys, f x = .ok ys → ∀ y ∈ ys, P y) : ∀ y ∈ yss.flatten, P y := by
  intro y hy
  obtain ⟨ys, hys, hy⟩ := List.mem_flatten.1 hy
  obtain ⟨x, hx, hxy⟩ := exists_of_mem_mapM h ys hys
  exact hf x hx ys hxy y hy

theorem eq_nil_of_mapM_flatten {f : α → Except ε (List β)} {xs : List α} {ys : List (List β)}
    (h : xs.mapM f = .ok ys) (hn : ys.flatten = []) : ∀ x ∈ xs, f x = .ok [] := by
  intro x hx
  obtain ⟨y, hy, hf⟩ := exists_of_mapM_eq_ok h x hx
  rw [hf, List.flatten_eq_nil_iff.1 hn y hy]

def errorOf? : Except ε α → Option ε
  | .ok _ => none
  | .error e => some e

theorem errorOf?_bind_pure (x : Except ε α) (f : α → β) :
    errorOf? (x >>= fun a => pure (f a)) = errorOf? x := by
  cases x <;> rfl

theorem errorOf?_mapM (f : α → Except ε β) (xs : List α) :
    errorOf? (xs.mapM f) = xs.findSome? fun x => errorOf? (f x) := by
  induction xs with
  | nil => rfl
  | cons x xs ih =>
    rw [List.mapM_cons, List.findSome?_cons]
    cases hx : f x with
    | error e => rfl
    | ok y =>
      change errorOf? (xs.mapM f >>= fun ys => pure (y :: ys)) = xs.findSome? _
      rw [errorOf?_bind_pure, ih]

theorem findSome?_flatMap {γ : Type} (f : α → List β) (p : β → Option γ) (xs : List α) :
    (xs.flatMap f).findSome? p = xs.findSome? fun x => (f x).findSome? p := by
  induction xs with
  | nil => rfl
  | cons x xs ih =>
    rw [List.flatMap_cons, List.findSome?_append, List.findSome?_cons, ih]
    cases (f x).findSome? p <;> rfl

theorem nodup_eraseDups [BEq α] [LawfulBEq α] (xs : List α) : xs.eraseDups.Nodup := by
  induction hn : xs.length using Nat.strongRecOn generalizing xs with
  | ind n ih =>
    cases xs with
    | nil => simp
    | cons x r =>
      have hlen : (r.filter fun y => !y == x).length < n := by
        have := List.length_filter_le (fun y => !y == x) r
        simp only [List.length_cons] at hn
        omega
      rw [List.eraseDups_cons, List.nodup_cons]
      exact ⟨by simp [List.mem_eraseDups], ih _ hlen _ rfl⟩

theorem Logged.outcome_mapM (f : α → Logged β) (xs : List α) :
    (xs.mapM f).outcome = xs.mapM fun x => (f x).outcome := by
  have hloop : ∀ acc, (List.mapM.loop f xs acc).outcome =
      List.mapM.loop (fun x => (f x).outcome) xs acc := by
    induction xs with
    | nil => intro acc; rfl
    | cons x xs ih =>
      intro acc
      simp only [List.mapM.loop, outcome_bind, ih]
  exact hloop []

end LedgerReport
