import LedgerReport.Statement.Measure
/-!
Variables resolved by a pool of workers, one step after the other.

The measures are handed in as tasks, in their order. A worker takes a task that waits, whichever it
is, and is free again once it has the outcome. The results are asked for in the order of the
measures, each as soon as its task is finished, and a failure ends that. The pool is left when all
its tasks are finished.
-/

set_option autoImplicit false

namespace LedgerReport.Pool

inductive Task where
  | waiting (measure : Except Error Measure)
  | running (measure : Except Error Measure)
  | finished (outcome : Except Error Amount)

namespace Task

def isRunning : Task → Bool
  | running _ => true
  | _ => false

def isFinished : Task → Bool
  | finished _ => true
  | _ => false

end Task

inductive Stage where
  /-- the rest of the measures is to be handed in -/
  | submitting (rest : Measures)
  /-- some values are there, the rest of the names is to be asked for -/
  | collecting (values : List (String × Amount)) (rest : List String)
  | leaving (outcome : Except Error (List (String × Amount)))
  | gone (outcome : Except Error (List (String × Amount)))

structure State where
  tasks : List (String × Task)
  stage : Stage

def busy (tasks : List (String × Task)) : Nat := tasks.countP fun t => t.2.isRunning

def start (measures : Measures) : State := ⟨[], .submitting measures⟩

variable (workers : Int) (measures : Measures) (movements : List Movement)

/-- What can happen next, to the user of the pool or to one of its tasks. -/
inductive Step : State → State → Prop where
  | submit {tasks name measure rest} :
      Step ⟨tasks, .submitting ((name, measure) :: rest)⟩
        ⟨tasks ++ [(name, .waiting measure)], .submitting rest⟩
  | ask {tasks} :
      Step ⟨tasks, .submitting []⟩ ⟨tasks, .collecting [] (measures.map Prod.fst)⟩
  | take {tasks values name a rest} (h : (name, .finished (.ok a)) ∈ tasks) :
      Step ⟨tasks, .collecting values (name :: rest)⟩
        ⟨tasks, .collecting (values ++ [(name, a)]) rest⟩
  | fail {tasks values name e rest} (h : (name, .finished (.error e)) ∈ tasks) :
      Step ⟨tasks, .collecting values (name :: rest)⟩ ⟨tasks, .leaving (.error e)⟩
  | complete {tasks values} :
      Step ⟨tasks, .collecting values []⟩ ⟨tasks, .leaving (.ok values)⟩
  | leave {tasks outcome} (h : ∀ t ∈ tasks, t.2.isFinished) :
      Step ⟨tasks, .leaving outcome⟩ ⟨tasks, .gone outcome⟩
  | begin {pre name measure post stage}
      (h : (busy (pre ++ (name, .waiting measure) :: post) : Int) < workers) :
      Step ⟨pre ++ (name, .waiting measure) :: post, stage⟩
        ⟨pre ++ (name, .running measure) :: post, stage⟩
  | finish {pre name measure post stage} :
      Step ⟨pre ++ (name, .running measure) :: post, stage⟩
        ⟨pre ++ (name, .finished (Measure.resolve name measure movements).outcome) :: post, stage⟩

/-- The user has left the pool with an outcome, and nothing happens any more. -/
def Ends (outcome : Except Error (List (String × Amount))) (s : State) : Prop :=
  s.stage = .gone outcome ∧ ∀ t, ¬ Step workers measures movements s t

/-- From a state on, every schedule comes to an end, and it is one with a property. -/
inductive Inevitable (goal : State → Prop) : State → Prop where
  | now {s} (h : goal s) : Inevitable goal s
  | later {s} (h : ∃ t, Step workers measures movements s t)
      (hnext : ∀ t, Step workers measures movements s t → Inevitable goal t) : Inevitable goal s

end LedgerReport.Pool
