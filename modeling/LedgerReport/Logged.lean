import LedgerReport.Error
set_option autoImplicit false

namespace LedgerReport

structure Logged (α : Type) where
  outcome : Except Error α
  warnings : List String

namespace Logged
variable {α β : Type}

def ofExcept (r : Except Error α) : Logged α := ⟨r, []⟩

def warn (ws : List String) : Logged Unit := ⟨.ok (), ws⟩

instance : Monad Logged where
  pure a := ⟨.ok a, []⟩
  bind x f := match x.outcome with
    | .ok a => ⟨(f a).outcome, x.warnings ++ (f a).warnings⟩
    | .error e => ⟨.error e, x.warnings⟩

@[simp] theorem outcome_pure (a : α) : (pure a : Logged α).outcome = .ok a := rfl

@[simp] theorem outcome_ofExcept (r : Except Error α) : (ofExcept r).outcome = r := rfl

@[simp] theorem outcome_warn (ws : List String) : (warn ws).outcome = .ok () := rfl

@[simp] theorem outcome_bind (x : Logged α) (f : α → Logged β) :
    (x >>= f).outcome = x.outcome >>= fun a => (f a).outcome := by
  cases h : x.outcome <;> simp [bind, h, Except.bind]

end Logged
end LedgerReport
