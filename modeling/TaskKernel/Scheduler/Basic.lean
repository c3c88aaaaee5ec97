/-
  TaskKernel.Scheduler.Basic

  Round-robin scheduling over a first-in, first-out ready queue. The running task
  is in no queue. `schedule` files the outgoing task by its state, takes the head
  of the ready queue and names the two contexts to switch between. Every operation
  returns the scheduler and platform it leaves also when it reports an error.
-/
import TaskKernel.Scheduler.Platform
import TaskKernel.Task.Store

namespace TaskKernel

/-! ## Decisions -/

/-- A context switch that the caller has to carry out before it puts `irqState` back. -/
structure Switch where
  outgoing : TaskId
  incoming : TaskId
  outgoingContext : Context
  incomingContext : Context
  irqState : Word
deriving DecidableEq, Repr

/-- Carries the switch out as far as the platform sees it: the incoming table is
    installed and the mask word put back. -/
def Switch.carryOut {P : Type} [Platform P] (switch : Switch) (hw : P) : P :=
  Platform.irqRestore (Platform.setPageTable hw switch.incomingContext.pageTable) switch.irqState

/-- What scheduling decided. -/
inductive Outcome where
  /-- There is nothing to switch to. -/
  | stay
  /-- No task was running and the head of the ready queue now is. -/
  | installed (id : TaskId)
  | switch (switch : Switch)
deriving DecidableEq, Repr

/-- What terminating a task led to. -/
inductive Termination where
  /-- The task was not running and is now a zombie. -/
  | filed
  /-- The task was running; this is the decision that followed. -/
  | rescheduled (outcome : Outcome)
deriving DecidableEq, Repr

/-- The decision inside a termination. -/
def Termination.outcome : Termination → Outcome
  | filed => .stay
  | rescheduled outcome => outcome

/-- Why a scheduling request failed. -/
inductive SchedulerError where
  /-- The state of the outgoing task disagrees with the queues. -/
  | invalidState (id : TaskId)
  | notFound (id : TaskId)
  | noCurrentTask
deriving DecidableEq, Repr

def SchedulerError.code : SchedulerError → String
  | invalidState _ => "InvalidState"
  | notFound _ => "NotFound"
  | noCurrentTask => "NoCurrentTask"

def SchedulerError.message : SchedulerError → String
  | invalidState id => "task " ++ toString id.val ++ " is READY but not on the ready queue"
  | notFound id => "no task with id " ++ toString id.val
  | noCurrentTask => "no task is running"

instance : Reported SchedulerError := ⟨SchedulerError.code, SchedulerError.message⟩

/-! ## The scheduler -/

/-- All tasks and which of them is running. -/
structure Scheduler where
  store : TaskStore
  current : Option TaskId
deriving DecidableEq, Repr

namespace Scheduler

variable {F P : Type} [FrameSource F] [Platform P]

def empty : Scheduler := ⟨.empty, none⟩

/-- Creates the idle task and makes it the running task. -/
def init (s : Scheduler) (mem : Memory F) (entry : VirtAddr) :
    Except TaskError TaskId × Scheduler × Memory F :=
  match s.store.create mem entry pageSize with
  | (.error e, store, mem) => (.error e, { s with store }, mem)
  | (.ok id, store, mem) =>
    -- The running task is in no queue.
    let store := (store.remove .ready id).2
    (.ok id, ⟨store.setState id .running, some id⟩, mem)

/-- Creates a task and puts it at the tail of the ready queue. -/
def createTask (s : Scheduler) (mem : Memory F) (entry : VirtAddr) (imageSize : Nat) :
    Except TaskError TaskId × Scheduler × Memory F :=
  let (result, store, mem) := s.store.create mem entry imageSize
  (result, { s with store }, mem)

def currentTask? (s : Scheduler) : Option Task := s.current.bind s.store.get?

/-- The task with this number if it is ready, waiting or running. -/
def lookup? (s : Scheduler) (id : TaskId) : Option Task :=
  (s.store.findQueued? id).or (if s.current = some id then s.store.get? id else none)

def modify (s : Scheduler) (id : TaskId) (f : Task → Task) : Scheduler :=
  { s with store := s.store.modify id f }

/-- Lets timer and interrupts through again after a decision without a switch. -/
def resume (hw : P) (irqState : Word) : P :=
  Platform.irqRestore (Platform.timerEnable hw) irqState

/-- Moves the outgoing task to the queue its state calls for. -/
def fileOutgoing (store : TaskStore) (id : TaskId) : Except SchedulerError TaskStore :=
  match store.get? id with
  | none => .error (.invalidState id)
  | some task =>
    match task.state with
    | .running => .ok ((store.setState id .ready).enqueue .ready id).2
    | .blocked => .ok (store.enqueue .wait id).2
    | .exited => .ok (store.enqueue .zombie id).2
    | .ready => if task.queue = some .ready then .ok store else .error (.invalidState id)

/-- Takes the head of the ready queue when no task is running. -/
def installHead (s : Scheduler) : Outcome × Scheduler :=
  match s.store.dequeue .ready with
  | (none, _) => (.stay, s)
  | (some next, store) => (.installed next, ⟨store.setState next .running, some next⟩)

/-- Makes `next` the running task after `prev` was filed, and names the two contexts. -/
def switchTo (store : TaskStore) (prev next : TaskId) (irqState : Word) :
    Except SchedulerError Switch × Scheduler :=
  let store := ((store.remove .ready next).2).setState next .running
  let s : Scheduler := ⟨store, some next⟩
  match store.get? prev, store.get? next with
  | some p, some n => (.ok ⟨prev, next, p.context, n.context, irqState⟩, s)
  | _, _ => (.error (.invalidState next), s)

/-- Picks the next task to run. Timer and interrupts are held back meanwhile; every
    way out but a switch lets both through again. -/
def schedule (s : Scheduler) (hw : P) : Except SchedulerError Outcome × Scheduler × P :=
  let (irqState, hw) := Platform.irqDisable hw
  let hw := Platform.timerDisable hw
  match s.current with
  | none =>
    let (outcome, s) := s.installHead
    (.ok outcome, s, resume hw irqState)
  | some prev =>
    match s.store.ready.front? with
    | none => (.ok .stay, s, resume hw irqState)
    | some next =>
      if next = prev then (.ok .stay, s, resume hw irqState)
      else
        match fileOutgoing s.store prev with
        | .error e => (.error e, s, resume hw irqState)
        | .ok store =>
          match switchTo store prev next irqState with
          | (.error e, s) => (.error e, s, resume hw irqState)
          -- Interrupts stay masked until the caller has switched.
          | (.ok switch, s) => (.ok (.switch switch), s, Platform.timerEnable hw)

/-- Counts a timer tick of the running task; true if another task should get a turn. -/
def tick (s : Scheduler) : Bool × Scheduler :=
  match s.currentTask? with
  | none => (false, s)
  | some task => (true, s.modify task.id fun t => { t with ticks := t.ticks + 1 })

/-- Terminates a task. The running one is scheduled away, any other becomes a zombie. -/
def terminate (s : Scheduler) (id : TaskId) (hw : P) :
    Except SchedulerError Termination × Scheduler × P :=
  match s.lookup? id with
  | none => (.error (.notFound id), s, hw)
  | some _ =>
    let s := { s with store := s.store.setState id .exited }
    if s.current = some id then
      let (result, s, hw) := s.schedule hw
      (result.map .rescheduled, s, hw)
    else (.ok .filed, { s with store := (s.store.enqueue .zombie id).2 }, hw)

def exit (s : Scheduler) (hw : P) : Except SchedulerError Outcome × Scheduler × P :=
  match s.current with
  | none => (.error .noCurrentTask, s, hw)
  | some id =>
    let (result, s, hw) := s.terminate id hw
    (result.map Termination.outcome, s, hw)

/-- Blocks the running task and gives another one its turn. -/
def blockCurrent (s : Scheduler) (hw : P) : Except SchedulerError Outcome × Scheduler × P :=
  match s.current with
  | none => (.error .noCurrentTask, s, hw)
  | some id => { s with store := s.store.setState id .blocked }.schedule hw

/-- Makes a blocked task ready, or running if it is still the current one. -/
def wake (s : Scheduler) (id : TaskId) : Except SchedulerError Unit × Scheduler :=
  match s.store.get? id with
  | none => (.error (.notFound id), s)
  | some task =>
    if task.state ≠ .blocked then (.error (.notFound id), s)
    else if s.current = some id then (.ok (), { s with store := s.store.setState id .running })
    else (.ok (), { s with store := ((s.store.setState id .ready).enqueue .ready id).2 })

/-- What becomes of the task that was running when another one is adopted. -/
inductive Outgoing where
  /-- It is filed by its state. -/
  | keep
  /-- It is retired to the zombie queue. -/
  | retire
deriving DecidableEq, Repr

/-- Makes the ready task `id` the running task without a switch of contexts. If the
    running task cannot be filed, both tasks go back, `id` to the tail of its queue. -/
def adopt (s : Scheduler) (id : TaskId) (mode : Outgoing) : Except SchedulerError Unit × Scheduler :=
  match s.store.remove .ready id with
  | (false, _) => (.error (.notFound id), s)
  | (true, store) =>
    match s.current with
    | none => (.ok (), ⟨store.setState id .running, some id⟩)
    | some prev =>
      let retired := match mode with
        | .keep => store
        | .retire => store.setState prev .exited
      match fileOutgoing retired prev with
      | .ok store => (.ok (), ⟨store.setState id .running, some id⟩)
      | .error e =>
        -- The state from before retirement comes back.
        let restored := match store.get? prev with
          | none => retired
          | some task => retired.setState prev task.state
        (.error e, ⟨(restored.enqueue .ready id).2, some prev⟩)

/-- Takes every zombie out of the store and gives its stacks back. Returns them,
    oldest first. -/
def reapZombies (store : TaskStore) (mem : Memory F) : Nat → List TaskId × TaskStore × Memory F
  | 0 => ([], store, mem)
  | n + 1 =>
    match store.dequeue .zombie with
    | (none, store) => ([], store, mem)
    | (some id, store) =>
      match store.take id with
      | (none, store) => reapZombies store mem n
      | (some task, store) =>
        let (ids, store, mem) := reapZombies store (task.release mem) n
        (id :: ids, store, mem)

/-- Drops every zombie; each pass takes one number off the queue. -/
def reap (s : Scheduler) (mem : Memory F) : List TaskId × Scheduler × Memory F :=
  let (ids, store, mem) := reapZombies s.store mem s.store.zombie.length
  (ids, { s with store }, mem)

end Scheduler

end TaskKernel
