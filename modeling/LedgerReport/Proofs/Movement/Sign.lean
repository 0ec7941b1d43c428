import LedgerReport.Filter
import LedgerReport.Movement.Sign
import LedgerReport.Period
import LedgerReport.Proofs.Decimal.Whole
import LedgerReport.Proofs.Numeral.Spelling
/-!
The sign convention leaves everything about a dataset as it was, but for some signs.

A movement keeps its period, its codes and its names, and with them its class. So the sign of an
amount turns back when the convention is applied once more, and whatever looks at periods or fields
alone, as selections and filters do, selects the same movements before and after.
-/

set_option autoImplicit false

namespace LedgerReport

theorem Number.neg_neg_number (n : Number) : n.neg.neg = n := by
  cases n with
  | whole n => exact congrArg whole (Int.neg_neg n)
  | real x => exact congrArg real (Decimal.neg_neg_float x)

namespace Sign
variable {m : Movement}

def WritesLiability (code : Value) : Prop :=
  ∃ n, Numeral.Writes (Text.trim code.display) n ∧ 60 ≤ n ∧ n ≤ 90

theorem isLiability_iff {code : Value} : isLiability code = true ↔ WritesLiability code := by
  unfold isLiability WritesLiability codeNumber?
  simp only [← Numeral.readWhole?_eq_some_iff]
  cases Numeral.readWhole? (Text.trim code.display) with
  | none => simp
  | some n => simp

example : isLiability (.text " +6_0 ") = true := by decide

theorem shown_of_liability (h : WritesLiability m.code1) :
    shown m = { m with amount := m.amount.map Number.neg } := if_pos (isLiability_iff.2 h)

theorem shown_of_other (h : ¬ WritesLiability m.code1) : shown m = m :=
  if_neg (mt isLiability_iff.1 h)

/-- A movement is shown with its amount or the opposite of it, and with all else unchanged. -/
theorem shown_eq (m : Movement) : shown m = { m with amount := (shown m).amount } := by
  unfold shown
  split <;> rfl

@[simp] theorem yearPeriod_shown (m : Movement) : (shown m).yearPeriod = m.yearPeriod := by
  unfold shown
  split <;> rfl

@[simp] theorem get_shown (m : Movement) (f : Field) : (shown m).get f = m.get f := by
  unfold shown
  split
  · cases f <;> rfl
  · rfl

theorem shown_shown (m : Movement) : shown (shown m) = m := by
  have hclass : isLiability (shown m).code1 = isLiability m.code1 :=
    congrArg isLiability (get_shown m .code1)
  have hamount : (m.amount.map Number.neg).map Number.neg = m.amount := by
    cases m.amount with
    | none => rfl
    | some n => exact congrArg some n.neg_neg_number
  rw [shown, hclass]
  unfold shown
  split
  · rw [hamount]
  · rfl

end Sign

open Sign

theorem Filter.holds_shown (filter : Filter) (m : Movement) :
    filter.holds (Sign.shown m) = filter.holds m := by
  simp only [holds, get_shown]

theorem filter_map_shown {p : Movement → Bool} (h : ∀ m, p (shown m) = p m)
    (ms : List Movement) : (ms.map shown).filter p = (ms.filter p).map shown := by
  rw [List.filter_map]
  exact congrArg (List.map shown) (List.filter_congr fun m _ => h m)

namespace Dataset
variable {d : Dataset}

theorem movements_withSignConvention (d : Dataset) :
    d.withSignConvention.movements = d.movements.map shown := rfl

theorem periods_withSignConvention (d : Dataset) : d.withSignConvention.periods = d.periods := by
  have hperiods : (d.movements.map shown).map Movement.yearPeriod =
      d.movements.map Movement.yearPeriod := by
    rw [List.map_map]
    exact List.map_congr_left fun m _ => yearPeriod_shown m
  exact congrArg YearPeriod.sorted hperiods

end Dataset

namespace Selector

theorem select_withSignConvention (s : Selector) (d : Dataset) :
    s.select d.withSignConvention = (s.select d).map shown :=
  filter_map_shown (fun m => by rw [yearPeriod_shown]) d.movements

theorem restrict_withSignConvention (s : Selector) (policy : Policy) (d : Dataset) :
    s.restrict policy d.withSignConvention = List.map shown <$> s.restrict policy d := by
  have hselect := s.select_withSignConvention d
  cases s with
  | year y => exact congrArg pure hselect
  | toDate y through => exact congrArg pure hselect
  | window w =>
    simp only [restrict, d.periods_withSignConvention, hselect]
    split
    · cases policy <;> rfl
    · rfl

theorem restrictUnder_withSignConvention (s : Selector) (policy : Value) (d : Dataset) :
    s.restrictUnder policy d.withSignConvention = List.map shown <$> s.restrictUnder policy d := by
  cases s with
  | year y => exact restrict_withSignConvention (.year y) .takePart d
  | toDate y through => exact restrict_withSignConvention (.toDate y through) .takePart d
  | window w =>
    simp only [restrictUnder, restrict_withSignConvention]
    cases Policy.read policy <;> rfl

end Selector

namespace Dataset

/-- The convention shows every movement on its own: with the opposite amount under a code from 60 to
90, and else as it is. Applied twice it leaves the movements as they were. It keeps the periods, and
commutes with every selection, also where that fails, and with every filter. -/
theorem withSignConvention_exact (d : Dataset) :
    d.withSignConvention.movements = d.movements.map shown ∧
    (∀ m, shown m = { m with amount := (shown m).amount } ∧
      (WritesLiability m.code1 → (shown m).amount = m.amount.map Number.neg) ∧
      (¬ WritesLiability m.code1 → (shown m).amount = m.amount)) ∧
    d.withSignConvention.withSignConvention.movements = d.movements ∧
    d.withSignConvention.periods = d.periods ∧
    (∀ (s : Selector) policy,
      s.restrictUnder policy d.withSignConvention = List.map shown <$> s.restrictUnder policy d) ∧
    ∀ spec, ((Filter.read spec).map fun f => d.withSignConvention.movements.filter f.holds) =
      (Filter.read spec).map fun f => (d.movements.filter f.holds).map shown := by
  refine ⟨rfl, fun m => ⟨shown_eq m, fun h => ?_, fun h => ?_⟩, ?_,
    d.periods_withSignConvention, fun s policy => s.restrictUnder_withSignConvention policy d,
    fun spec => ?_⟩
  · rw [shown_of_liability h]
  · rw [shown_of_other h]
  · have htwice : shown ∘ shown = id := by
      funext m
      rw [Function.comp_apply, shown_shown, id]
    simp only [movements_withSignConvention, List.map_map, htwice, List.map_id]
  · have hfilter : ∀ f : Filter, (d.movements.map shown).filter f.holds =
        (d.movements.filter f.holds).map shown :=
      fun f => filter_map_shown f.holds_shown d.movements
    simp only [movements_withSignConvention, hfilter]

end Dataset
end LedgerReport
