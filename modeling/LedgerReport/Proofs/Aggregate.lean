import Mathlib
import LedgerReport.Proofs.Amounts
import LedgerReport.Proofs.Decimal.Order
import LedgerReport.Proofs.Decimal.Whole
/-!
What aggregates of floating-point values are, whatever is not available among them.

A reduction that names an aggregate has a result, and the result is what the aggregate stands for
(`Meets`): sums, averages and extremes are of the values that are available, a count is of all
amounts, and the first and the last are those at the two ends. A kept extreme bounds what has been
passed (`foldl_better`).
-/

set_option autoImplicit false

namespace LedgerReport

theorem Number.lt_real (x y : Float) : (real x).lt (real y) = decide (x < y) := by
  simp only [lt, order]
  split_ifs <;> simp_all

namespace Aggregate
open Amount Decimal

/-- A value names an aggregate: by its name or by one of its other names, in any case and with
blanks around it. -/
def Names (v : Value) (a : Aggregate) : Prop :=
  ∃ s, v = .text s ∧
    (Text.lower (Text.trim s) = a.name ∨ (Text.lower (Text.trim s), a) ∈ aliases)

theorem ofName?_eq_some_iff {name : String} {a : Aggregate} :
    ofName? name = some a ↔ name = a.name ∨ (name, a) ∈ aliases := by
  constructor
  · intro h
    rw [ofName?, Option.or_eq_some_iff] at h
    obtain h | ⟨-, h⟩ := h
    · obtain ⟨⟨other, b⟩, hfind, rfl⟩ := Option.map_eq_some_iff.1 h
      have hname : other = name := by simpa using List.find?_some hfind
      exact .inr (hname ▸ List.mem_of_find?_eq_some hfind)
    · have hname := List.find?_some h
      exact .inl (eq_of_beq hname).symm
  · rintro (rfl | h)
    · cases a <;> decide
    · have hother : name = "avg" ∧ a = average ∨ name = "mean" ∧ a = average := by
        simpa [aliases] using h
      obtain ⟨rfl, rfl⟩ | ⟨rfl, rfl⟩ := hother
      · decide
      · decide

theorem ofValue?_eq_some_iff {v : Value} {a : Aggregate} : ofValue? v = some a ↔ Names v a := by
  cases v with
  | text s => simp [ofValue?, Names, ofName?_eq_some_iff]
  | _ => simp [ofValue?, Names]

theorem isSome_ofValue?_iff {v : Value} : (ofValue? v).isSome = true ↔ ∃ a, Names v a := by
  simp only [Option.isSome_iff_exists, ofValue?_eq_some_iff]

def present (xs : List (Option Float)) : List Float := xs.filterMap id

@[simp] theorem mem_present {xs : List (Option Float)} {x : Float} :
    x ∈ present xs ↔ some x ∈ xs := by simp [present]

theorem present_eq_nil_iff {xs : List (Option Float)} : present xs = [] ↔ ∀ x ∈ xs, x = none := by
  simp [present]

/-- Where the better of two values is the one with the lower key, the kept one of all has the lowest
key of them. -/
theorem foldl_better {α : Type} [LinearOrder α] (key : Float → α) {better : Number → Number → Bool}
    {P : Float → Prop}
    (hbetter : ∀ x y, P x → P y → (better (.real x) (.real y) = true ↔ key x < key y))
    (xs : List Float) (x : Float) (hP : ∀ y ∈ x :: xs, P y) :
    ∃ k ∈ x :: xs, (∀ y ∈ x :: xs, key k ≤ key y) ∧
      (xs.map Number.real).foldl (fun kept m => if better m kept then m else kept) (.real x) =
        .real k := by
  induction xs generalizing x with
  | nil => exact ⟨x, List.mem_singleton_self x, by simp, rfl⟩
  | cons y ys ih =>
    obtain ⟨hx, hy, hys⟩ : P x ∧ P y ∧ ∀ z ∈ ys, P z := by simpa using hP
    have hiff := hbetter y x hy hx
    simp only [List.map_cons, List.foldl_cons]
    split
    next h =>
      obtain ⟨k, hk, hlow, hfold⟩ := ih y (by simpa using ⟨hy, hys⟩)
      have hky : key k ≤ key y := hlow y List.mem_cons_self
      refine ⟨k, List.mem_cons_of_mem x hk, ?_, hfold⟩
      exact List.forall_mem_cons.2 ⟨hky.trans (hiff.1 h).le, hlow⟩
    next h =>
      obtain ⟨k, hk, hlow, hfold⟩ := ih x (by simpa using ⟨hx, hys⟩)
      obtain ⟨hkx, hlow⟩ := List.forall_mem_cons.1 hlow
      refine ⟨k, ?_, ?_, hfold⟩
      · exact List.mem_cons.2 ((List.mem_cons.1 hk).imp_right (List.mem_cons_of_mem y))
      · have hxy : key x ≤ key y := not_lt.1 (mt hiff.2 h)
        exact List.forall_mem_cons.2 ⟨hkx, List.forall_mem_cons.2 ⟨hkx.trans hxy, hlow⟩⟩

/-- An extreme of the values that are available: there is none exactly if no value is, and
otherwise it is one of the values and in order with all of them. -/
def IsExtreme (r : Float → Float → Prop) (xs : List (Option Float)) (found : Option Float) : Prop :=
  (found = none ↔ ∀ x ∈ xs, x = none) ∧
    ∀ x, found = some x → some x ∈ xs ∧ ∀ y, some y ∈ xs → r x y

def Meets (xs : List (Option Float)) (found : Option Float) : Aggregate → Prop
  | sum => found = some (realSum (present xs)) ∧ (xs = [] → found = some 0.0)
  | average => (found = none ↔ ∀ x ∈ xs, x = none) ∧
      ∀ x, found = some x → x = realSum (present xs) / countValue (present xs).length
  | count => found = some (countValue xs.length) ∧ (xs = [] → found = some 0.0) ∧
      (xs.length < 2 ^ 53 → (Number.real (countValue xs.length)).whole? = some (xs.length : Int))
  | min => IsExtreme (· ≤ ·) xs found
  | max => IsExtreme (· ≥ ·) xs found
  | first => (xs = [] → found = none) ∧ ∀ x rest, xs = x :: rest → found = x
  | last => (xs = [] → found = none) ∧ ∀ init x, xs = init ++ [x] → found = x

section
variable {xs ys : List (Option Float)} {a : Aggregate} {kind : Value}

theorem extreme_isExtreme {α : Type} [LinearOrder α] (key : Float → α)
    (better : Number → Number → Bool) {r : Float → Float → Prop} {P : Float → Prop}
    (hbetter : ∀ x y, P x → P y → (better (.real x) (.real y) = true ↔ key x < key y))
    (hr : ∀ x y, P x → P y → key x ≤ key y → r x y) (hP : ∀ x, some x ∈ xs → P x) :
    ∃ found, extreme better ((present xs).map .real) = ofReal found ∧ IsExtreme r xs found := by
  have hmem : ∀ x, x ∈ present xs ↔ some x ∈ xs := fun x => mem_present
  cases hx : present xs with
  | nil =>
    exact ⟨none, rfl, iff_of_true rfl (present_eq_nil_iff.1 hx), nofun⟩
  | cons x rest =>
    rw [hx] at hmem
    obtain ⟨k, hk, hlow, hfold⟩ :=
      foldl_better key hbetter rest x fun y hy => hP y ((hmem y).1 hy)
    have hsome : ¬ ∀ y ∈ xs, y = none := by
      rw [← present_eq_nil_iff, hx]
      exact List.cons_ne_nil x rest
    refine ⟨some k, by simp only [extreme, List.map_cons, hfold, ofReal_some],
      iff_of_false (Option.some_ne_none k) hsome, ?_⟩
    rintro _ ⟨⟩
    refine ⟨(hmem k).1 hk, fun y hy => ?_⟩
    exact hr k y (hP k ((hmem k).1 hk)) (hP y hy) (hlow y ((hmem y).2 hy))

theorem whole?_countValue {n : Nat} (h : n < 2 ^ 53) :
    (Number.real (countValue n)).whole? = some (n : Int) := by
  obtain ⟨x, hx, -, hwhole, -⟩ := ofWhole?_exact (n := n) (by simpa using h)
  have hnearest : x = countValue n := by
    have hsign : signed (decide ((n : Int) < 0)) (nearest n 1) = nearest n 1 := by simp [signed]
    simp only [ofWhole?, Int.natAbs_natCast, hsign, Option.ite_none_left_eq_some] at hx
    exact (Option.some.inj hx.2).symm
  rw [hnearest] at hwhole
  exact hwhole

/-- An aggregate of values of which none is not a number has a result, which is what it stands
for. -/
theorem apply_meets (a : Aggregate) (h : ∀ x, some x ∈ xs → x.isNaN = false) :
    ∃ found, a.apply (xs.map ofReal) = .ok (ofReal found) ∧ a.Meets xs found := by
  cases a with
  | sum => exact ⟨_, apply_sum xs, rfl, fun hx => by rw [hx]; rfl⟩
  | average =>
    refine ⟨_, apply_average xs, ?_, ?_⟩
    · rw [← present_eq_nil_iff]
      simp [present]
    · intro x hx
      exact (Option.some.inj (Option.ite_none_left_eq_some.1 hx).2).symm
  | count =>
    refine ⟨some (countValue xs.length), ?_, rfl, fun hx => by rw [hx]; rfl, whole?_countValue⟩
    rw [apply, List.length_map]
    rfl
  | min =>
    obtain ⟨found, hfound, hmin⟩ := extreme_isExtreme place (fun m kept => m.lt kept)
      (r := (· ≤ ·))
      (fun x y hx hy => by rw [Number.lt_real, decide_eq_true_eq, lt_iff_place_lt hx hy])
      (fun x y hx hy => (le_iff_place_le hx hy).2) h
    refine ⟨found, ?_, hmin⟩
    rw [← hfound, apply, filterMap_id_map_ofReal]
    rfl
  | max =>
    obtain ⟨found, hfound, hmax⟩ := extreme_isExtreme (fun x => OrderDual.toDual (place x))
      (fun m kept => kept.lt m) (r := (· ≥ ·))
      (fun x y hx hy => by
        rw [Number.lt_real, decide_eq_true_eq, lt_iff_place_lt hy hx, OrderDual.toDual_lt_toDual])
      (fun x y hx hy hle => (le_iff_place_le hy hx).2 hle) h
    refine ⟨found, ?_, hmax⟩
    rw [← hfound, apply, filterMap_id_map_ofReal]
    rfl
  | first =>
    refine ⟨xs.head?.join, by cases xs <;> simp [apply, ofReal], ?_, ?_⟩
    · rintro rfl
      rfl
    · rintro x rest rfl
      rfl
  | last =>
    refine ⟨xs.getLast?.join, ?_, ?_, ?_⟩
    · rw [apply, List.getLast?_map]
      cases xs.getLast? <;> rfl
    · rintro rfl
      rfl
    · rintro init x rfl
      simp

theorem apply_congr (ha : a ∈ [sum, average, min, max]) (h : present ys = present xs) :
    a.apply (ys.map ofReal) = a.apply (xs.map ofReal) := by
  have hpresent : (ys.map ofReal).filterMap id = (xs.map ofReal).filterMap id := by
    rw [filterMap_id_map_ofReal, filterMap_id_map_ofReal]
    exact congrArg (List.map Number.real) h
  fin_cases ha <;> simp only [apply, hpresent]

theorem read_eq_ok_iff : read kind = .ok a ↔ Names kind a := by
  rw [← ofValue?_eq_some_iff, read]
  cases ofValue? kind <;> simp

theorem reduce_of_names (h : Names kind a) (as : List Amount) :
    reduce kind as = (a.apply as).mapError .overflow := by
  rw [reduce, read_eq_ok_iff.2 h]
  rfl

/-- Whatever names no aggregate is refused, and only that. What names one reduces floating-point
values, available or not, to what it stands for; sums, averages and extremes do not change with the
values that are not available. -/
theorem reduce_meets (kind : Value) (h : ∀ x, some x ∈ xs → x.isNaN = false) :
    (reduce kind (xs.map ofReal) = .error (.unknownAggregate kind (all.map name)) ↔
        (ofValue? kind).isSome = false) ∧
      ((ofValue? kind).isSome = true ↔ ∃ a, Names kind a) ∧
      ∀ a, Names kind a → ∃ found, reduce kind (xs.map ofReal) = .ok (ofReal found) ∧
        a.Meets xs found ∧ (a ∈ [sum, average, min, max] → ∀ ys, present ys = present xs →
          reduce kind (ys.map ofReal) = .ok (ofReal found)) := by
  have hnamed : ∀ a, Names kind a → ∃ found, reduce kind (xs.map ofReal) = .ok (ofReal found) ∧
      a.Meets xs found := by
    intro a ha
    obtain ⟨found, hfound, hmeets⟩ := apply_meets a h
    exact ⟨found, by rw [reduce_of_names ha, hfound]; rfl, hmeets⟩
  refine ⟨?_, isSome_ofValue?_iff, fun a ha => ?_⟩
  · cases hv : ofValue? kind with
    | none => simp [reduce, read, hv, bind, Except.bind]
    | some a =>
      obtain ⟨found, hfound, -⟩ := hnamed a (ofValue?_eq_some_iff.1 hv)
      simp [hfound]
  · obtain ⟨found, hfound, hmeets⟩ := hnamed a ha
    refine ⟨found, hfound, hmeets, fun hmem ys hys => ?_⟩
    rw [reduce_of_names ha, apply_congr hmem hys, ← reduce_of_names ha, hfound]

/-- The lower of two values among some that are not available, under a name that is written with
blanks and capitals. -/
theorem reduce_meets_min : Names (.text " Min ") min ∧
    ∃ found, reduce (.text " Min ") ([none, some 2.0, none, some 1.5].map ofReal) =
      .ok (ofReal found) ∧ IsExtreme (· ≤ ·) [none, some 2.0, none, some 1.5] found := by
  have h : ∀ x, some x ∈ [none, some 2.0, none, some (1.5 : Float)] → x.isNaN = false := by
    intro x hx
    have hx : x = 2.0 ∨ x = 1.5 := by simpa using hx
    obtain rfl | rfl := hx <;> decide +kernel
  have hname : Names (.text " Min ") min := ofValue?_eq_some_iff.1 (by cbv)
  obtain ⟨found, hfound, hmeets, -⟩ := (reduce_meets (.text " Min ") h).2.2 min hname
  exact ⟨hname, found, hfound, hmeets⟩

end

end Aggregate
end LedgerReport
