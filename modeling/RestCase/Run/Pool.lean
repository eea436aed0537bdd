/-
# RestCase.Run.Pool — tasks that take turns

On several workers every case of a suite is a task.  All tasks are there from the beginning
(`Pool.start`); one that has a permit, of which there are as many as workers, goes on by one request
or one pause at a time, in any order with the others, and gives the permit back when it ends.  It
ends with the result of its case and the place of the case in the suite (`taskBody`), or dies
without one: because its case breaks down, or for a reason that is not its own.  Ended tasks are
collected in any order, and a result is put in the slot at the place that it carries.

Which task goes on is nowhere decided: `Pool.Turn` and `Pool.Step` say what can come next, and every
order that they allow is an order in which the tasks may take their steps.

Boundary: a request and its reply are one step.  Two requests that are under way at a time are two
steps in one order or the other.
-/
import RestCase.Run.Suite

namespace RestCase

/-- What a task for the case at a place does: it runs the case (`runCase`) and says where the
result belongs. -/
def taskBody [Pattern.Engine] [Url.Names] (env : Environment) (place : Nat) (c : TestCase) :
    Process (Nat × CaseResult) :=
  (runCase env c).bind fun r => .done (place, r)

/-- How far a task has come: `Pool.Step` takes it from `waiting` to `joined`. -/
inductive Stage where
  /-- The task waits for a permit. -/
  | waiting (body : Process (Nat × CaseResult))
  /-- The task has a permit, and this is what it still has to do. -/
  | running (rest : Process (Nat × CaseResult))
  /-- The task has ended, with a place and a result, or without them if it died. -/
  | ended (found : Option (Nat × CaseResult))
  /-- The task has ended and was collected. -/
  | joined (found : Option (Nat × CaseResult))

namespace Stage

/-- The task holds a permit. -/
def isRunning : Stage → Bool
  | running _ => true
  | waiting _ | ended _ | joined _ => false

/-- The task has not ended. -/
def isAlive : Stage → Bool
  | waiting _ | running _ => true
  | ended _ | joined _ => false

/-- The task was collected. -/
def isJoined : Stage → Bool
  | joined _ => true
  | waiting _ | running _ | ended _ => false

/-- What a running task does next: it pauses, sends a request and gets the answer, ends with its
result, or breaks down. -/
inductive Acts (client : Client) : Stage → Journal → Stage → Journal → Prop
  | nap (time : Nat) (rest : Process (Nat × CaseResult)) (j : Journal) :
      Acts client (.running (.nap time rest)) j
        (.running rest) { j with naps := j.naps ++ [time] }
  | send (r : Request) (next : Reply → Process (Nat × CaseResult)) (j : Journal) :
      Acts client (.running (.send r next)) j
        (.running (next (client (j.requests ++ [r])))) { j with requests := j.requests ++ [r] }
  | finish (found : Nat × CaseResult) (j : Journal) :
      Acts client (.running (.done found)) j (.ended (some found)) j
  | breakDown (j : Journal) :
      Acts client (.running .broken) j (.ended none) j

end Stage

/-- The tasks of a suite, the slots for their results, and what all of them did so far, in one
journal as the client sees it. -/
structure Pool where
  tasks : List Stage
  slots : List (Option CaseResult)
  journal : Journal

namespace Pool

/-! ## The beginning and the end -/

/-- The tasks for cases, of which the first one has a place. -/
def spawned [Pattern.Engine] [Url.Names] (env : Environment) (place : Nat) :
    List TestCase → List Stage
  | [] => []
  | c :: r => .waiting (taskBody env place c) :: spawned env (place + 1) r

/-- The pool in which no task has begun: all of them `spawned`, every slot empty. -/
def start [Pattern.Engine] [Url.Names] (env : Environment) (cases : List TestCase) : Pool :=
  ⟨spawned env 0 cases, List.replicate cases.length none, .empty⟩

theorem length_spawned [Pattern.Engine] [Url.Names] (env : Environment) (place : Nat)
    (cases : List TestCase) :
    (spawned env place cases).length = cases.length := by
  induction cases generalizing place with
  | nil => rfl
  | cons c r ih => simp [spawned, ih]

theorem length_start_tasks [Pattern.Engine] [Url.Names] (env : Environment)
    (cases : List TestCase) :
    (start env cases).tasks.length = cases.length :=
  length_spawned env 0 cases

/-- Every task was collected (`Stage.isJoined`). -/
def Settled (p : Pool) : Prop := ∀ t ∈ p.tasks, t.isJoined = true

/-- The task at a place was collected without a result. -/
def Died (p : Pool) (place : Nat) : Prop := p.tasks[place]? = some (.joined none)

/-- The results that the slots amount to; where a slot is empty the case could not run
(`Suite.taskResult`). -/
def results (p : Pool) (cases : List TestCase) : List CaseResult :=
  List.zipWith Suite.taskResult cases p.slots

/-! ## Turns -/

/-- The number of permits that are taken: `Turn` hands out no more than there are workers. -/
def busy (p : Pool) : Nat := p.tasks.countP Stage.isRunning

/-- The pool after a task has come to another stage. -/
def setTask (p : Pool) (place : Nat) (t : Stage) : Pool := { p with tasks := p.tasks.set place t }

/-- The slots after a task with an end was collected. -/
def filled (slots : List (Option CaseResult)) :
    Option (Nat × CaseResult) → List (Option CaseResult)
  | some (place, r) => slots.set place (some r)
  | none => slots

/-- What can come next of itself: a waiting task takes a permit that is free, a running one goes
on (`Stage.Acts`), or one that has ended is collected. -/
inductive Turn (client : Client) (workers : Nat) : Pool → Pool → Prop
  | enter {p : Pool} {i : Nat} {body : Process (Nat × CaseResult)} :
      p.tasks[i]? = some (.waiting body) → p.busy < workers →
      Turn client workers p (p.setTask i (.running body))
  | act {p : Pool} {i : Nat} {t t' : Stage} {j : Journal} :
      p.tasks[i]? = some t → t.Acts client p.journal t' j →
      Turn client workers p { p.setTask i t' with journal := j }
  | join {p : Pool} {i : Nat} {found : Option (Nat × CaseResult)} :
      p.tasks[i]? = some (.ended found) →
      Turn client workers p { p.setTask i (.joined found) with slots := filled p.slots found }

/-- What can come next: a `Turn`, or a task that has not ended dies. -/
inductive Step (client : Client) (workers : Nat) : Pool → Pool → Prop
  | turn {p q : Pool} : Turn client workers p q → Step client workers p q
  | die {p : Pool} {i : Nat} {t : Stage} :
      p.tasks[i]? = some t → t.isAlive = true → Step client workers p (p.setTask i (.ended none))

end Pool

end RestCase
