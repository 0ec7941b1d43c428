import LedgerReport.Aggregate
set_option autoImplicit false

namespace LedgerReport

namespace Amount

def ofReal (x : Option Float) : Amount := x.map .real

def real? : Amount → Option Float
  | some (.real x) => some x
  | _ => none

/-- Whether an amount is a floating-point value or not available. -/
def IsReal (a : Amount) : Prop := ofReal (real? a) = a

@[simp] theorem ofReal_none : ofReal none = none := rfl

@[simp] theorem ofReal_some (x : Float) : ofReal (some x) = some (.real x) := rfl

@[simp] theorem real?_ofReal (x : Option Float) : real? (ofReal x) = x := by cases x <;> rfl

theorem ofReal_injective {x y : Option Float} (h : ofReal x = ofReal y) : x = y := by
  rw [← real?_ofReal x, h, real?_ofReal]

theorem isReal_ofReal (x : Option Float) : IsReal (ofReal x) := by simp [IsReal]

theorem IsReal.eq_ofReal {a : Amount} (h : IsReal a) : a = ofReal (real? a) := Eq.symm h

/-- Amounts that are all floating-point values are the amounts of a list of such values. -/
theorem map_ofReal_real? {as : List Amount} (h : ∀ a ∈ as, IsReal a) :
    (as.map real?).map ofReal = as := by
  rw [List.map_map]
  exact (List.map_congr_left h).trans (List.map_id as)

theorem filterMap_id_map_ofReal (xs : List (Option Float)) :
    (xs.map ofReal).filterMap id = (xs.filterMap id).map Number.real := by
  induction xs with
  | nil => rfl
  | cons x xs ih =>
    cases x with
    | none => exact ih
    | some y => exact congrArg (Number.real y :: ·) ih

end Amount

namespace Number

theorem toFloat_zero : (whole 0).toFloat = .ok 0.0 := by
  have h : (0.0 : Float).isInf = false := by decide
  simp [toFloat, Decimal.ofWhole?, Decimal.nearest, Decimal.signed, h]

theorem add_zero_real (x : Float) : (whole 0).add (real x) = .ok (real (0.0 + x)) := by
  simp [add, lift, toFloat_zero, Except.map]

theorem add_real (x y : Float) : (real x).add (real y) = .ok (real (x + y)) := rfl

theorem foldlM_add_real (xs : List Float) (x : Float) :
    (xs.map real).foldlM (fun sum n => sum.add n) (real x) =
      .ok (real (xs.foldl (· + ·) x)) := by
  induction xs generalizing x with
  | nil => rfl
  | cons y ys ih => exact ih (x + y)

end Number

namespace Aggregate
open Amount

def realSum (xs : List Float) : Float := xs.foldl (· + ·) 0.0

theorem total_real (xs : List Float) :
    total (xs.map .real) = .ok (if xs.isEmpty then .whole 0 else .real (realSum xs)) := by
  cases xs with
  | nil => rfl
  | cons x xs =>
    simp only [total, List.map_cons, List.foldlM_cons, Number.add_zero_real, bind, Except.bind,
      Number.foldlM_add_real]
    rfl

theorem apply_sum (xs : List (Option Float)) :
    sum.apply (xs.map ofReal) = .ok (ofReal (some (realSum (xs.filterMap id)))) := by
  simp only [apply, filterMap_id_map_ofReal, total_real, bind, Except.bind]
  cases hx : xs.filterMap id with
  | nil => simp [Number.toFloat_zero, realSum, pure, Except.pure]
  | cons y ys => rfl

theorem apply_average (xs : List (Option Float)) :
    average.apply (xs.map ofReal) = .ok (ofReal (if (xs.filterMap id).isEmpty then none
      else some (realSum (xs.filterMap id) / countValue (xs.filterMap id).length))) := by
  simp only [apply, filterMap_id_map_ofReal, total_real, bind, Except.bind]
  cases hx : xs.filterMap id with
  | nil => rfl
  | cons y ys => simp [mean, pure, Except.pure]

theorem foldl_better_real (better : Number → Number → Bool) (xs : List Float) (x : Float) :
    ∃ y, (xs.map Number.real).foldl (fun kept m => if better m kept then m else kept) (.real x) =
      .real y := by
  induction xs generalizing x with
  | nil => exact ⟨x, rfl⟩
  | cons y ys ih =>
    simp only [List.map_cons, List.foldl_cons]
    split
    · exact ih y
    · exact ih x

theorem extreme_real (better : Number → Number → Bool) (xs : List Float) :
    ∃ x, extreme better (xs.map .real) = ofReal x := by
  cases xs with
  | nil => exact ⟨none, rfl⟩
  | cons x xs =>
    obtain ⟨y, hy⟩ := foldl_better_real better xs x
    exact ⟨some y, by simp only [extreme, List.map_cons, hy, ofReal_some]⟩

theorem apply_real (a : Aggregate) {as : List Amount} (h : ∀ m ∈ as, IsReal m) :
    ∃ x, a.apply as = .ok (ofReal x) := by
  rw [← map_ofReal_real? h]
  generalize as.map real? = xs
  cases a with
  | sum => exact ⟨_, apply_sum xs⟩
  | average => exact ⟨_, apply_average xs⟩
  | count => exact ⟨some _, rfl⟩
  | min =>
    simp only [apply, filterMap_id_map_ofReal]
    obtain ⟨x, hx⟩ := extreme_real (fun m kept => m.lt kept) (xs.filterMap id)
    exact ⟨x, congrArg _ hx⟩
  | max =>
    simp only [apply, filterMap_id_map_ofReal]
    obtain ⟨x, hx⟩ := extreme_real (fun m kept => kept.lt m) (xs.filterMap id)
    exact ⟨x, congrArg _ hx⟩
  | first => exact ⟨xs.head?.join, by cases xs <;> simp [apply, ofReal]⟩
  | last =>
    refine ⟨xs.getLast?.join, ?_⟩
    simp only [apply, List.getLast?_map]
    cases xs.getLast? <;> rfl

end Aggregate
end LedgerReport
