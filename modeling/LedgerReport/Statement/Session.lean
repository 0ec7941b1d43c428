import LedgerReport.Statement.Engine
import LedgerReport.Report.Read
set_option autoImplicit false

namespace LedgerReport

inductive Report.Given where
  | report (r : Report)
  | definition (v : Value)

def Report.Given.read : Report.Given → Except Error Report
  | report r => .ok r
  | definition v => Report.ofDefinition v

structure Request where
  report : Report.Given
  dataset : Dataset
  base : Selector
  comparison : Option Selector

namespace Engine

def answer (e : Engine) (q : Request) : Except Error (List Row) := do
  let r ← q.report.read
  (e.evaluate r q.dataset q.base q.comparison).outcome

theorem answer_of_read {e : Engine} {q : Request} {r : Report} (hr : q.report.read = .ok r) :
    e.answer q = r.check.outcome >>= fun _ =>
      (e.evaluateChecked r q.dataset q.base q.comparison).outcome := by
  simp only [answer, hr, evaluate, Logged.outcome_bind]
  rfl

/-- The rows that are asked for, with a cache, and the cache after that. -/
def answerCached (e : Engine) (c : Cache Row) (now : Instant) (q : Request) :
    Except Error (List Row) × Cache Row :=
  match q.report.read with
  | .error error => (.error error, c)
  | .ok r =>
    let (rows, after) := e.evaluateCached (some c) now r q.dataset q.base q.comparison
    (rows.outcome, after.getD c)

end Engine

inductive Step where
  | evaluate (now : Instant) (q : Request)
  | invalidate (reportId : String)
  | clear
  /-- an entry turns out to be computed at another time -/
  | age (k : CacheKey) (computed : Instant)
  /-- the holder of a list that was returned changes it -/
  | edit (i : Nat) (change : List Row → List Row)

def answers {σ α : Type} (next : σ → Step → Option α × σ) (s : σ) : List Step → List α
  | [] => []
  | step :: rest => (next s step).1.toList ++ answers next (next s step).2 rest

namespace Engine

def answer? (e : Engine) : Step → Option (Except Error (List Row))
  | .evaluate _ q => some (e.answer q)
  | _ => none

def next (e : Engine) (c : Cache Row) : Step → Option (Except Error (List Row)) × Cache Row
  | .evaluate now q =>
    let (rows, after) := e.answerCached c now q
    (some rows, after)
  | .invalidate reportId => (none, c.invalidate reportId)
  | .clear => (none, c.clear)
  | .age k computed => (none, c.redate k computed)
  | .edit .. => (none, c)

end Engine

/-- The lists that were made, by their numbers, and those of them that were returned. An entry of
the cache holds the number of its list. -/
structure Session where
  lists : List (List Row)
  returned : List Nat
  cache : Cache Nat

namespace Session

def start (maxAge : Option Number) : Session := ⟨[], [], .empty maxAge⟩

def read (s : Session) (numbers : List Nat) : List Row := numbers.flatMap fun n => s.lists.getD n []

def give (s : Session) (rows : List Row) : Session :=
  { s with lists := s.lists ++ [rows], returned := s.returned ++ [s.lists.length] }

def keep (s : Session) (now : Instant) (k : CacheKey) (fingerprint : String) (rows : List Row) :
    Session :=
  { s with
    lists := s.lists ++ [rows]
    cache := s.cache.set now k fingerprint [s.lists.length] }

def lookUp (s : Session) (e : Engine) (now : Instant) (r : Report) (q : Request) :
    Except Error (List Row) × Session :=
  let k := CacheKey.ofSelectors r.id q.base q.comparison
  let found := s.cache.find now k q.dataset.fingerprint
  let settled := { s with cache := s.cache.settle k found }
  match found with
  | .fresh numbers => (.ok (s.read numbers), settled.give (s.read numbers))
  | _ => match (e.evaluateChecked r q.dataset q.base q.comparison).outcome with
    | .ok rows => (.ok rows, (settled.give rows).keep now k q.dataset.fingerprint rows)
    | .error error => (.error error, settled)

def evaluate (s : Session) (e : Engine) (now : Instant) (q : Request) :
    Except Error (List Row) × Session :=
  match q.report.read with
  | .error error => (.error error, s)
  | .ok r => match r.check.outcome with
    | .error error => (.error error, s)
    | .ok _ => s.lookUp e now r q

def edit (s : Session) (i : Nat) (change : List Row → List Row) : Session :=
  match s.returned[i]? with
  | some n => { s with lists := s.lists.modify n change }
  | none => s

def next (e : Engine) (s : Session) : Step → Option (Except Error (List Row)) × Session
  | .evaluate now q =>
    let (rows, after) := s.evaluate e now q
    (some rows, after)
  | .invalidate reportId => (none, { s with cache := s.cache.invalidate reportId })
  | .clear => (none, { s with cache := s.cache.clear })
  | .age k computed => (none, { s with cache := s.cache.redate k computed })
  | .edit i change => (none, s.edit i change)

end Session
end LedgerReport
