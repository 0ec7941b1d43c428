import LedgerReport.Proofs.Amounts
import LedgerReport.Expression.Evaluation
/-!
What an expression means over floating-point values, and that evaluation computes it.

`Node.meaning` is the arithmetic value of a tree whose references have values. `Node.outcome` runs
over a tree when a look-up may fail; it is what `Node.value` comes to as long as no look-up sets a
value (`value_run`), and it is the meaning as soon as every look-up succeeds (`outcome_eq_meaning`).
-/

set_option autoImplicit false

namespace LedgerReport
open Amount

namespace Attempt
variable {σ α β : Type} {x : Attempt σ α} {b b' : σ}

theorem run_bind_ok {a : α} (f : α → Attempt σ β) (h : x.run b = (.ok a, b')) :
    (x >>= f).run b = (f a).run b' := by
  have hx : StateT.run x.run b = (.ok a, b') := h
  change StateT.run (x >>= f).run b = _
  rw [ExceptT.run_bind, StateT.run_bind, hx]
  rfl

theorem run_bind_error {e : Error} (f : α → Attempt σ β) (h : x.run b = (.error e, b')) :
    (x >>= f).run b = (.error e, b') := by
  have hx : StateT.run x.run b = (.error e, b') := h
  change StateT.run (x >>= f).run b = _
  rw [ExceptT.run_bind, StateT.run_bind, hx]
  rfl

theorem run_bind_eq_ok {f : α → Attempt σ β} {c : β} {b'' : σ}
    (h : (x >>= f).run b = (.ok c, b'')) :
    ∃ a b', x.run b = (.ok a, b') ∧ (f a).run b' = (.ok c, b'') := by
  obtain ⟨outcome, b', hx⟩ : ∃ outcome b', x.run b = (outcome, b') := ⟨_, _, rfl⟩
  cases outcome with
  | ok a =>
    rw [run_bind_ok f hx] at h
    exact ⟨a, b', hx, h⟩
  | error e =>
    rw [run_bind_error f hx] at h
    cases h

@[simp] theorem run_pure (a : α) : (pure a : Attempt σ α).run b = (.ok a, b) := rfl

@[simp] theorem run_throw (e : Error) : (throw e : Attempt σ α).run b = (.error e, b) := rfl

@[simp] theorem run_get : (get : Attempt σ σ).run b = (.ok b, b) := rfl

/-- Whether a step has an outcome in every state that satisfies an invariant, and keeps it. -/
def Yields (inv : σ → Prop) (x : Attempt σ α) (outcome : Except Error α) : Prop :=
  ∀ b, inv b → ∃ b', x.run b = (outcome, b') ∧ inv b'

section Yields
variable {inv : σ → Prop}

theorem yields_pure (inv : σ → Prop) (a : α) : Yields inv (pure a) (.ok a) :=
  fun b hb => ⟨b, rfl, hb⟩

theorem yields_throw (inv : σ → Prop) (e : Error) :
    Yields inv (throw e : Attempt σ α) (.error e) :=
  fun b hb => ⟨b, rfl, hb⟩

theorem Yields.bind {outcome : Except Error α} {f : α → Attempt σ β} {g : α → Except Error β}
    (h : Yields inv x outcome) (hf : ∀ a, outcome = .ok a → Yields inv (f a) (g a)) :
    Yields inv (x >>= f) (outcome >>= g) := by
  intro b hb
  obtain ⟨b', hx, hb'⟩ := h b hb
  cases outcome with
  | error e => exact ⟨b', run_bind_error f hx, hb'⟩
  | ok a =>
    rw [run_bind_ok f hx]
    exact hf a rfl b' hb'

end Yields

end Attempt

section Lookup
variable {definitions : Option Definitions} {ds : Definitions} {chain entered : Chain}
  {site : Site} {ref : Reference} {b : Bindings} {a : Amount} {e : Error}

theorem lookup_bound (h : b.get? ref = some a) :
    (lookup definitions chain site ref).run b = (.ok a, b) := by
  rw [lookup.eq_def, Attempt.run_bind_ok _ Attempt.run_get]
  simp only [h]
  rfl

theorem lookup_entered (h : b.get? ref = none) (he : chain.enter ref = .error e) :
    (lookup (some ds) chain site ref).run b = (.error e, b) := by
  rw [lookup.eq_def, Attempt.run_bind_ok _ Attempt.run_get]
  simp only [h, he]
  rfl

theorem lookup_none (h : b.get? ref = none) :
    (lookup none chain site ref).run b = (.error (ref.undefinedError site), b) := by
  rw [lookup.eq_def, Attempt.run_bind_ok _ Attempt.run_get]
  simp only [h]
  rfl

theorem lookup_undefined (h : b.get? ref = none) (he : chain.enter ref = .ok entered)
    (hd : getPair? ref ds = none) :
    (lookup (some ds) chain site ref).run b = (.error (ref.undefinedError site), b) := by
  rw [lookup.eq_def, Attempt.run_bind_ok _ Attempt.run_get]
  simp only [h, he]
  split
  · rfl
  · rename_i hs
    rw [hd] at hs
    cases hs

/-- A reference that has a definition gets its value from there, without the definition. -/
theorem lookup_defined {d : Definition} (h : b.get? ref = none)
    (he : chain.enter ref = .ok entered) (hd : getPair? ref ds = some d) :
    (lookup (some ds) chain site ref).run b =
      (do
        let a ← d.resolve fun site ref' => lookup (some (ds.without ref)) entered site ref'
        modify (·.set ref a)
        return a : Resolution Amount).run b := by
  rw [lookup.eq_def, Attempt.run_bind_ok _ Attempt.run_get]
  simp only [h, he]
  split
  · rename_i hn
    rw [hd] at hn
    cases hn
  · rename_i hs
    rw [hd] at hs
    cases hs
    rfl

theorem lookup_refused (h : b.get? ref = none) (he : chain.enter ref = .ok entered)
    (hd : getPair? ref ds = some (.refused e)) :
    (lookup (some ds) chain site ref).run b = (.error e, b) := by
  rw [lookup_defined h he hd]
  rfl

end Lookup

/-- An operation on two floating-point values; a quotient by zero is not available. -/
def Operator.onReals : Operator → Float → Float → Option Float
  | .add, x, y => some (x + y)
  | .subtract, x, y => some (x - y)
  | .multiply, x, y => some (x * y)
  | .divide, x, y => if y == 0.0 then none else some (x / y)

def Sign.onReal : Sign → Float → Float
  | .plus, x => x
  | .minus, x => -x

theorem Operator.combine_ofReal (operator : Operator) (x y : Option Float) :
    operator.combine (ofReal x) (ofReal y) =
      .ok (ofReal (x.bind fun x => y.bind fun y => operator.onReals x y)) := by
  cases x with
  | none => rfl
  | some x =>
    cases y with
    | none => rfl
    | some y =>
      cases operator with
      | divide =>
        simp only [combine, apply, onReals, Number.divide?, Number.isZero, ofReal_some,
          Option.bind_some]
        by_cases hy : y == 0.0
        · simp only [hy, if_true]
          rfl
        · have hdiv : (Number.real x).div (.real y) = .ok (.real (x / y)) := rfl
          simp only [hy, hdiv]
          rfl
      | _ => rfl

theorem Sign.map_apply_ofReal (sign : Sign) (x : Option Float) :
    (ofReal x).map sign.apply = ofReal (x.map sign.onReal) := by
  cases x <;> cases sign <;> rfl

namespace Node

def meaning (σ : Reference → Option Float) : Node → Option Float
  | .literal x => some x
  | .variableAt v _ => σ (.name v)
  | .orderAt n _ => σ (.order n)
  | .signed sign operand => (operand.meaning σ).map sign.onReal
  | .binary operator left right =>
    (left.meaning σ).bind fun x => (right.meaning σ).bind fun y => operator.onReals x y

/-- The value of an expression, given what is found for a reference at a position. -/
def outcome (find : Reference → Nat → Except Error Amount) : Node → Except Error Amount
  | .literal x => .ok (some (.real x))
  | .variableAt v position => find (.name v) position
  | .orderAt n position => find (.order n) position
  | .signed sign operand => (operand.outcome find).map (Option.map sign.apply)
  | .binary operator left right => do
    let a ← left.outcome find
    let b ← right.outcome find
    operator.combine a b

theorem meaning_congr {σ τ : Reference → Option Float} (node : Node)
    (h : ∀ ref ∈ node.occurrences, σ ref = τ ref) : node.meaning σ = node.meaning τ := by
  induction node with
  | literal x => rfl
  | variableAt v position => exact h _ (by simp [occurrences])
  | orderAt n position => exact h _ (by simp [occurrences])
  | signed sign operand ih => simp only [meaning, ih h]
  | binary operator left right hl hr =>
    have h₁ := hl fun ref hm => h ref (List.mem_append_left _ hm)
    have h₂ := hr fun ref hm => h ref (List.mem_append_right _ hm)
    simp only [meaning, h₁, h₂]

theorem outcome_congr {find find' : Reference → Nat → Except Error Amount} (node : Node)
    (h : ∀ ref ∈ node.occurrences, ∀ position, find ref position = find' ref position) :
    node.outcome find = node.outcome find' := by
  induction node with
  | literal x => rfl
  | variableAt v position => exact h _ (by simp [occurrences]) position
  | orderAt n position => exact h _ (by simp [occurrences]) position
  | signed sign operand ih => simp only [outcome, ih h]
  | binary operator left right hl hr =>
    have h₁ := hl fun ref hm => h ref (List.mem_append_left _ hm)
    have h₂ := hr fun ref hm => h ref (List.mem_append_right _ hm)
    simp only [outcome, h₁, h₂]

theorem outcome_assigned {find : Reference → Nat → Except Error Amount}
    {σ : Reference → Amount} {a : Amount} (node : Node)
    (hσ : ∀ ref ∈ node.occurrences, ∀ position x, find ref position = .ok x → σ ref = x)
    (ho : node.outcome find = .ok a) :
    (∀ ref ∈ node.occurrences, ∃ position, find ref position = .ok (σ ref)) ∧
      node.outcome (fun ref _ => .ok (σ ref)) = .ok a := by
  induction node generalizing a with
  | literal x => exact ⟨by simp [occurrences], ho⟩
  | variableAt v position =>
    have hv := hσ _ (by simp [occurrences]) position a ho
    subst hv
    exact ⟨fun ref hm => ⟨position, by rwa [List.mem_singleton.1 hm]⟩, rfl⟩
  | orderAt n position =>
    have hv := hσ _ (by simp [occurrences]) position a ho
    subst hv
    exact ⟨fun ref hm => ⟨position, by rwa [List.mem_singleton.1 hm]⟩, rfl⟩
  | signed sign operand ih =>
    rw [outcome] at ho
    cases hx : operand.outcome find with
    | error e => simp [hx, Except.map] at ho
    | ok x =>
      obtain ⟨hfound, hvalue⟩ := ih hσ hx
      rw [hx] at ho
      exact ⟨hfound, by rw [outcome, hvalue]; exact ho⟩
  | binary operator left right hl hr =>
    rw [outcome] at ho
    cases hx : left.outcome find with
    | error e => simp [hx, bind, Except.bind] at ho
    | ok x =>
      cases hy : right.outcome find with
      | error e => simp [hx, hy, bind, Except.bind] at ho
      | ok y =>
        obtain ⟨hleft, hx'⟩ := hl (fun ref hm => hσ ref (List.mem_append_left _ hm)) hx
        obtain ⟨hright, hy'⟩ := hr (fun ref hm => hσ ref (List.mem_append_right _ hm)) hy
        rw [hx, hy] at ho
        refine ⟨fun ref hm => (List.mem_append.1 hm).elim (hleft ref) (hright ref), ?_⟩
        rw [outcome, hx', hy']
        exact ho

/-- Evaluation by look-ups that keep an invariant keeps it, and is the outcome of what they find. -/
theorem value_yields {σ : Type} {lookup : Reference → Nat → Attempt σ Amount}
    {find : Reference → Nat → Except Error Amount} {inv : σ → Prop} (node : Node)
    (h : ∀ ref ∈ node.occurrences, ∀ position,
      Attempt.Yields inv (lookup ref position) (find ref position)) :
    Attempt.Yields inv (node.value lookup) (node.outcome find) := by
  induction node with
  | literal x => exact Attempt.yields_pure inv _
  | variableAt v position => exact h _ (by simp [occurrences]) position
  | orderAt n position => exact h _ (by simp [occurrences]) position
  | signed sign operand ih =>
    have houtcome : (signed sign operand).outcome find =
        operand.outcome find >>= fun a => .ok (a.map sign.apply) := by
      rw [outcome]
      cases operand.outcome find <;> rfl
    rw [houtcome]
    exact (ih h).bind fun a _ => Attempt.yields_pure inv _
  | binary operator left right hl hr =>
    refine (hl fun ref hm => h ref (List.mem_append_left _ hm)).bind fun a _ =>
      (hr fun ref hm => h ref (List.mem_append_right _ hm)).bind fun c _ => ?_
    cases operator.combine a c with
    | ok z => exact Attempt.yields_pure inv z
    | error e => exact Attempt.yields_throw inv e

theorem value_run {σ : Type} {lookup : Reference → Nat → Attempt σ Amount}
    {find : Reference → Nat → Except Error Amount} {b : σ} (node : Node)
    (h : ∀ ref ∈ node.occurrences, ∀ position,
      (lookup ref position).run b = (find ref position, b)) :
    (node.value lookup).run b = (node.outcome find, b) := by
  have hyields : Attempt.Yields (· = b) (node.value lookup) (node.outcome find) :=
    node.value_yields fun ref hm position c hc => ⟨b, by rw [hc, h ref hm position], rfl⟩
  obtain ⟨b', hrun, rfl⟩ := hyields b rfl
  exact hrun

theorem outcome_eq_meaning {find : Reference → Nat → Except Error Amount}
    {σ : Reference → Option Float} (node : Node)
    (h : ∀ ref ∈ node.occurrences, ∀ position, find ref position = .ok (ofReal (σ ref))) :
    node.outcome find = .ok (ofReal (node.meaning σ)) := by
  induction node with
  | literal x => rfl
  | variableAt v position => exact h _ (by simp [occurrences]) position
  | orderAt n position => exact h _ (by simp [occurrences]) position
  | signed sign operand ih =>
    simp only [outcome, meaning, ih h, Except.map, Sign.map_apply_ofReal]
  | binary operator left right hl hr =>
    have h₁ := hl fun ref hm => h ref (List.mem_append_left _ hm)
    have h₂ := hr fun ref hm => h ref (List.mem_append_right _ hm)
    simp only [outcome, meaning, h₁, h₂, bind, Except.bind, Operator.combine_ofReal]

/-- A reference that is not found is never passed over: both operands are always evaluated. -/
theorem outcome_error {find : Reference → Nat → Except Error Amount}
    {σ : Reference → Option Float} (bound : Reference → Prop) (fault : Error → Prop) (node : Node)
    (hb : ∀ ref ∈ node.occurrences, bound ref → ∀ position,
      find ref position = .ok (ofReal (σ ref)))
    (hf : ∀ ref ∈ node.occurrences, ¬ bound ref → ∀ position,
      ∃ e, fault e ∧ find ref position = .error e)
    (h : ∃ ref ∈ node.occurrences, ¬ bound ref) :
    ∃ e, fault e ∧ node.outcome find = .error e := by
  induction node with
  | literal x =>
    obtain ⟨ref, hm, -⟩ := h
    simp [occurrences] at hm
  | variableAt v position =>
    obtain ⟨ref, hm, hn⟩ := h
    simp only [occurrences, List.mem_singleton] at hm
    subst hm
    exact hf _ (by simp [occurrences]) hn position
  | orderAt n position =>
    obtain ⟨ref, hm, hn⟩ := h
    simp only [occurrences, List.mem_singleton] at hm
    subst hm
    exact hf _ (by simp [occurrences]) hn position
  | signed sign operand ih =>
    obtain ⟨e, he, ho⟩ := ih hb hf h
    exact ⟨e, he, by simp only [outcome, ho, Except.map]⟩
  | binary operator left right hl hr =>
    by_cases hleft : ∃ ref ∈ left.occurrences, ¬ bound ref
    · obtain ⟨e, he, ho⟩ := hl (fun ref hm => hb ref (List.mem_append_left _ hm))
        (fun ref hm => hf ref (List.mem_append_left _ hm)) hleft
      exact ⟨e, he, by simp only [outcome, ho, bind, Except.bind]⟩
    · have hall : ∀ ref ∈ left.occurrences, bound ref := fun ref hm =>
        Classical.byContradiction fun hn => hleft ⟨ref, hm, hn⟩
      have hright : ∃ ref ∈ right.occurrences, ¬ bound ref := by
        obtain ⟨ref, hm, hn⟩ := h
        rcases List.mem_append.1 hm with hm | hm
        · exact absurd (hall ref hm) hn
        · exact ⟨ref, hm, hn⟩
      have ho := left.outcome_eq_meaning fun ref hm =>
        hb ref (List.mem_append_left _ hm) (hall ref hm)
      obtain ⟨e, he, hr'⟩ := hr (fun ref hm => hb ref (List.mem_append_right _ hm))
        (fun ref hm => hf ref (List.mem_append_right _ hm)) hright
      exact ⟨e, he, by simp only [outcome, ho, hr', bind, Except.bind]⟩

end Node
end LedgerReport
