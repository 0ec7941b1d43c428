import LedgerReport.Error
set_option autoImplicit false

namespace LedgerReport

inductive Reference where
  | name (v : String)
  | order (n : Int)
  deriving DecidableEq, Repr, Hashable

namespace Reference

def text : Reference → String
  | name v => "var:" ++ v
  | order n => "@" ++ toString n

def sorted (refs : List Reference) : List Reference :=
  refs.mergeSort fun a b => decide (a.text ≤ b.text)

end Reference

abbrev Chain := List Reference

namespace Chain

def cycle (chain : Chain) (ref : Reference) : List Reference :=
  chain.dropWhile (· ≠ ref) ++ [ref]

def cycleError (chain : Chain) (ref : Reference) : Error :=
  .circularDependency ((chain.cycle ref).map Reference.text)

def enter (chain : Chain) (ref : Reference) : Except Error Chain :=
  if ref ∈ chain then .error (chain.cycleError ref) else .ok (chain ++ [ref])

/-- What stands before the first occurrence of a reference is not on the cycle that it closes. -/
theorem cycle_append {before : Chain} (chain : Chain) {ref : Reference} (h : ref ∉ before) :
    cycle (before ++ chain) ref = cycle chain ref := by
  unfold cycle
  rw [List.dropWhile_append_of_pos fun a ha => by simpa using ne_of_mem_of_not_mem ha h]

def leave (chain : Chain) : Chain := chain.dropLast

theorem enter_ok {chain entered : Chain} {ref : Reference} (h : chain.enter ref = .ok entered) :
    ref ∉ chain ∧ entered = chain ++ [ref] := by
  unfold enter at h
  split at h
  · cases h
  · rename_i hr
    cases h
    exact ⟨hr, rfl⟩

theorem enter_error {chain : Chain} {ref : Reference} {e : Error}
    (h : chain.enter ref = .error e) : ref ∈ chain ∧ e = chain.cycleError ref := by
  unfold enter at h
  split at h
  · rename_i hr
    cases h
    exact ⟨hr, rfl⟩
  · cases h

theorem leave_enter {chain entered : Chain} {ref : Reference}
    (h : chain.enter ref = .ok entered) : entered.leave = chain := by
  obtain ⟨-, rfl⟩ := enter_ok h
  simp [leave]

end Chain
end LedgerReport
