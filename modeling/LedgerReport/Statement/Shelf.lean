import LedgerReport.Statement.Cache
set_option autoImplicit false

namespace LedgerReport

/-- What callers do. A list is named by its place among those that callers hold. -/
inductive CacheStep (α : Type) where
  | make (rows : List α)
  | edit (i : Nat) (change : List α → List α)
  | get (now : Instant) (k : CacheKey) (fingerprint : String)
  | set (now : Instant) (k : CacheKey) (fingerprint : String) (i : Nat)
  | invalidate (reportId : String)
  | clear
  /-- an entry turns out to be computed at another time -/
  | age (k : CacheKey) (computed : Instant)

def CacheStep.isGet {α : Type} : CacheStep α → Bool
  | .get .. => true
  | _ => false

/-- The lists that were made, by their numbers, and those of them that callers hold. An entry of the
cache holds the number of its list. -/
structure Shelf (α : Type) where
  lists : List (List α)
  held : List Nat
  cache : Cache Nat

namespace Shelf
variable {α : Type}

def start (maxAge : Option Number) : Shelf α := ⟨[], [], .empty maxAge⟩

def read (s : Shelf α) (numbers : List Nat) : List α := numbers.flatMap fun n => s.lists.getD n []

/-- The rows of the list at a place among those that callers hold; where there is no list, there are
no rows. -/
def rowsAt (s : Shelf α) (i : Nat) : List α := s.read (s.held[i]?).toList

def keys (s : Shelf α) : List CacheKey := s.cache.entries.map (·.1)

def give (s : Shelf α) (rows : List α) : Shelf α :=
  { s with lists := s.lists ++ [rows], held := s.held ++ [s.lists.length] }

def keep (s : Shelf α) (now : Instant) (k : CacheKey) (fingerprint : String) (rows : List α) :
    Shelf α :=
  { s with
    lists := s.lists ++ [rows]
    cache := s.cache.set now k fingerprint [s.lists.length] }

def edit (s : Shelf α) (i : Nat) (change : List α → List α) : Shelf α :=
  match s.held[i]? with
  | some n => { s with lists := s.lists.modify n change }
  | none => s

def get (s : Shelf α) (now : Instant) (k : CacheKey) (fingerprint : String) :
    Option (List α) × Shelf α :=
  let (found, cache) := s.cache.get now k fingerprint
  let settled := { s with cache }
  match found with
  | some numbers => (some (s.read numbers), settled.give (s.read numbers))
  | none => (none, settled)

def set (s : Shelf α) (now : Instant) (k : CacheKey) (fingerprint : String) (i : Nat) : Shelf α :=
  s.keep now k fingerprint (s.rowsAt i)

def invalidate (s : Shelf α) (reportId : String) : Nat × Shelf α :=
  (s.cache.count reportId, { s with cache := s.cache.invalidate reportId })

def clear (s : Shelf α) : Nat × Shelf α := (s.cache.size, { s with cache := s.cache.clear })

def next (s : Shelf α) : CacheStep α → Shelf α
  | .make rows => s.give rows
  | .edit i change => s.edit i change
  | .get now k fingerprint => (s.get now k fingerprint).2
  | .set now k fingerprint i => s.set now k fingerprint i
  | .invalidate reportId => (s.invalidate reportId).2
  | .clear => s.clear.2
  | .age k computed => { s with cache := s.cache.redate k computed }

def answer? (s : Shelf α) : CacheStep α → Option (Option (List α))
  | .get now k fingerprint => some (s.get now k fingerprint).1
  | _ => none

def answers (s : Shelf α) : List (CacheStep α) → List (Option (List α))
  | [] => []
  | step :: rest => (s.answer? step).toList ++ answers (s.next step) rest

def after (maxAge : Option Number) (steps : List (CacheStep α)) : Shelf α :=
  steps.foldl next (start maxAge)

end Shelf
end LedgerReport
