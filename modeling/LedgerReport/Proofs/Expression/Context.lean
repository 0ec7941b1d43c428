import LedgerReport.Expression.Context
import LedgerReport.Proofs.Expression.Meaning
/-!
Evaluation in a context leaves the stack as it was, whatever its outcome.

`lookup` is given the chain of the references under resolution, where `Context.lookup` moves the
stack of the context. Both have the same outcomes, and set the same values (`lookup_mirrors`); so
what is proved of the one holds of the other.
-/

set_option autoImplicit false

namespace LedgerReport

namespace Definitions

theorem induction_without {motive : Definitions → Prop}
    (step : ∀ ds : Definitions, (∀ ref d, getPair? ref ds = some d → motive (ds.without ref)) →
      motive ds) (ds : Definitions) : motive ds := by
  induction hn : ds.length using Nat.strongRecOn generalizing ds with
  | _ n ih => exact step ds fun ref d h => ih _ (hn ▸ length_without_lt h) _ rfl

theorem getPair?_without {ds : Definitions} {ref other : Reference} (h : other ≠ ref) :
    getPair? other (ds.without ref) = getPair? other ds := by
  refine (getPair?_filter (fun other => decide (other ≠ ref)) other ds).trans ?_
  simp [h]

end Definitions

namespace Context
variable {α β : Type} {stack entered : Chain} {ref : Reference}

/-- Whether a step in a context does what a resolution does and leaves the stack as it was. -/
def Mirrors (stack : Chain) (x : Contextual α) (y : Resolution α) : Prop :=
  ∀ b, x.run ⟨b, stack⟩ = ((y.run b).1, ⟨(y.run b).2, stack⟩)

theorem mirrors_pure (stack : Chain) (a : α) : Mirrors stack (pure a) (pure a) := fun _ => rfl

theorem mirrors_throw (stack : Chain) (e : Error) :
    Mirrors stack (throw e : Contextual α) (throw e) := fun _ => rfl

theorem Mirrors.bind {x : Contextual α} {y : Resolution α} {f : α → Contextual β}
    {g : α → Resolution β} (h : Mirrors stack x y) (hf : ∀ a, Mirrors stack (f a) (g a)) :
    Mirrors stack (x >>= f) (y >>= g) := by
  intro b
  obtain ⟨outcome, b', hy⟩ : ∃ outcome b', y.run b = (outcome, b') := ⟨_, _, rfl⟩
  have hx := h b
  rw [hy] at hx
  cases outcome with
  | ok a => rw [Attempt.run_bind_ok f hx, Attempt.run_bind_ok g hy, hf a b']
  | error e => rw [Attempt.run_bind_error f hx, Attempt.run_bind_error g hy]

theorem mirrors_set (stack : Chain) (ref : Reference) (a : Amount) :
    Mirrors stack (modify (·.set ref a)) (modify (·.set ref a)) := fun _ => rfl

theorem Mirrors.under {x : Contextual α} {y : Resolution α} (he : stack.enter ref = .ok entered)
    (h : Mirrors entered x y) : Mirrors stack (under ref x) y := by
  intro b
  have hrun : (Context.under ref x).run ⟨b, stack⟩ =
      ((x.run ⟨b, entered⟩).1, { (x.run ⟨b, entered⟩).2 with
        stack := (x.run ⟨b, entered⟩).2.stack.leave }) := by
    simp only [Context.under, ExceptT.run_mk, he]
    rfl
  rw [hrun, h b, Chain.leave_enter he]

theorem mirrors_under_error {x : Contextual α} {e : Error} (he : stack.enter ref = .error e) :
    Mirrors stack (Context.under ref x) (throw e) := by
  intro b
  simp only [Context.under, ExceptT.run_mk, he]
  rfl

theorem mirrors_value {lookup : Reference → Nat → Contextual Amount}
    {lookup' : Reference → Nat → Resolution Amount}
    (h : ∀ ref position, Mirrors stack (lookup ref position) (lookup' ref position))
    (node : Node) : Mirrors stack (node.value lookup) (node.value lookup') := by
  induction node with
  | literal x => exact mirrors_pure stack _
  | variableAt v position => exact h (.name v) position
  | orderAt n position => exact h (.order n) position
  | signed sign operand ih => exact ih.bind fun _ => mirrors_pure stack _
  | binary operator left right hl hr =>
    refine hl.bind fun a => hr.bind fun c => ?_
    cases operator.combine a c with
    | ok z => exact mirrors_pure stack z
    | error e => exact mirrors_throw stack e

theorem mirrors_evaluateWith {lookup : Site → Reference → Contextual Amount}
    {lookup' : Site → Reference → Resolution Amount}
    (h : ∀ site ref, Mirrors stack (lookup site ref) (lookup' site ref)) (text : String) :
    Mirrors stack (evaluateWith lookup text) (evaluateWith lookup' text) := by
  unfold LedgerReport.evaluateWith
  cases Node.read text with
  | ok node => exact mirrors_value (fun ref position => h _ ref) node
  | error e => exact mirrors_throw stack e

theorem mirrors_resolve {lookup : Site → Reference → Contextual Amount}
    {lookup' : Site → Reference → Resolution Amount}
    (h : ∀ site ref, Mirrors stack (lookup site ref) (lookup' site ref)) (d : Definition) :
    Mirrors stack (d.resolve lookup) (d.resolve lookup') := by
  cases d with
  | value a => exact mirrors_pure stack a
  | expression text => exact mirrors_evaluateWith h text
  | refused e => exact mirrors_throw stack e

section Lookup
variable {ds : Definitions} {site : Site} {c : Context}

theorem lookup_bound {definitions : Option Definitions} {a : Amount}
    (h : c.bindings.get? ref = some a) : (lookup definitions site ref).run c = (.ok a, c) := by
  rw [lookup.eq_def, Attempt.run_bind_ok _ Attempt.run_get]
  simp only [h]
  rfl

theorem lookup_none (h : c.bindings.get? ref = none) :
    (lookup none site ref).run c = (.error (ref.undefinedError site), c) := by
  rw [lookup.eq_def, Attempt.run_bind_ok _ Attempt.run_get]
  simp only [h]
  rfl

theorem lookup_unbound (h : c.bindings.get? ref = none) :
    (lookup (some ds) site ref).run c =
      (do
        let a ← under ref <|
          match getPair? ref ds with
          | none => throw (ref.undefinedError site)
          | some d => d.resolve fun site ref' => lookup (some (ds.without ref)) site ref'
        modify (·.set ref a)
        return a : Contextual Amount).run c := by
  rw [lookup.eq_def, Attempt.run_bind_ok _ Attempt.run_get]
  simp only [h]
  split <;> rename_i hs <;> simp only [hs]

end Lookup

theorem lookup_mirrors (definitions : Option Definitions) (stack : Chain) (site : Site)
    (ref : Reference) :
    Mirrors stack (lookup definitions site ref)
      (LedgerReport.lookup definitions stack site ref) := by
  cases definitions with
  | none =>
    intro b
    cases hb : b.get? ref with
    | some a => rw [lookup_bound hb, LedgerReport.lookup_bound hb]
    | none => rw [lookup_none hb, LedgerReport.lookup_none hb]
  | some ds =>
    induction ds using Definitions.induction_without generalizing stack site ref with
    | step ds ih =>
      intro b
      cases hb : b.get? ref with
      | some a => rw [lookup_bound hb, LedgerReport.lookup_bound hb]
      | none =>
        rw [lookup_unbound hb]
        cases he : stack.enter ref with
        | error e =>
          rw [LedgerReport.lookup_entered hb he,
            Attempt.run_bind_error _ (mirrors_under_error he b)]
          rfl
        | ok entered =>
          cases hd : getPair? ref ds with
          | none =>
            rw [LedgerReport.lookup_undefined hb he hd,
              Attempt.run_bind_error _ (Mirrors.under he (mirrors_throw entered _) b)]
            rfl
          | some d =>
            rw [LedgerReport.lookup_defined hb he hd]
            have hresolve := mirrors_resolve (fun site' ref' => ih ref d hd entered site' ref') d
            exact ((Mirrors.under he hresolve).bind fun a =>
              (mirrors_set stack ref a).bind fun _ => mirrors_pure stack a) b

theorem evaluate_mirrors (definitions : Option Definitions) (stack : Chain) (text : String) :
    Mirrors stack (evaluate definitions text)
      (LedgerReport.evaluate definitions stack text) :=
  mirrors_evaluateWith (fun site ref => lookup_mirrors definitions stack site ref) text

end Context
end LedgerReport
