/-
  TaskKernel.Task.Store

  All live tasks and the three queues. The queues hold numbers only, and each
  task records the queue that holds it, so that entering one queue means leaving
  the other. `modify` is the only way a stored task changes.
-/
import TaskKernel.Task.Queue

namespace TaskKernel

/-- Owner of every live task and of the queues. -/
structure TaskStore where
  /-- Live tasks, oldest first. -/
  tasks : List Task
  ready : TaskQueue
  wait : TaskQueue
  zombie : TaskQueue
  /-- Number of the next task. -/
  nextId : Nat
deriving DecidableEq, Repr

namespace TaskStore

def empty : TaskStore := ⟨[], .empty, .empty, .empty, 0⟩

/-! ## Tasks -/

/-- The live task with this number. -/
def get? (s : TaskStore) (id : TaskId) : Option Task := s.tasks.find? (·.id == id)

/-- Changes the task with this number, if it is live. -/
def modify (s : TaskStore) (id : TaskId) (f : Task → Task) : TaskStore :=
  { s with tasks := s.tasks.map fun t => if t.id == id then f t else t }

def setState (s : TaskStore) (id : TaskId) (state : TaskState) : TaskStore :=
  s.modify id fun t => { t with state }

/-- Records which queue holds a task. -/
def setQueueOf (s : TaskStore) (id : TaskId) (queue : Option QueueKind) : TaskStore :=
  s.modify id fun t => { t with queue }

def size (s : TaskStore) : Nat := s.tasks.length

/-! ## Queues -/

def queue (s : TaskStore) : QueueKind → TaskQueue
  | .ready => s.ready
  | .wait => s.wait
  | .zombie => s.zombie

def setQueue (s : TaskStore) (kind : QueueKind) (q : TaskQueue) : TaskStore :=
  match kind with
  | .ready => { s with ready := q }
  | .wait => { s with wait := q }
  | .zombie => { s with zombie := q }

/-- Takes a task out of the queue of a kind, if one is given. -/
def unlink (s : TaskStore) (kind : Option QueueKind) (id : TaskId) : TaskStore :=
  match kind with
  | none => s
  | some kind => s.setQueue kind ((s.queue kind).erase id)

/-- Moves a live task to the tail of a queue, out of whatever queue held it. False
    for other numbers. -/
def enqueue (s : TaskStore) (kind : QueueKind) (id : TaskId) : Bool × TaskStore :=
  match s.get? id with
  | none => (false, s)
  | some task =>
    -- Entering the queue that holds the task already moves it to the tail.
    let s := s.unlink task.queue id
    let s := s.setQueue kind ((s.queue kind).push id)
    (true, s.setQueueOf id (some kind))

/-- Takes the head of a queue. -/
def dequeue (s : TaskStore) (kind : QueueKind) : Option TaskId × TaskStore :=
  match (s.queue kind).pop with
  | (none, _) => (none, s)
  | (some id, rest) => (some id, (s.setQueue kind rest).setQueueOf id none)

/-- Takes a task out of a queue. False if it was not there. -/
def remove (s : TaskStore) (kind : QueueKind) (id : TaskId) : Bool × TaskStore :=
  if (s.queue kind).contains id then
    (true, (s.setQueue kind ((s.queue kind).erase id)).setQueueOf id none)
  else (false, s)

/-- The task with this number if it is ready or waiting. -/
def findQueued? (s : TaskStore) (id : TaskId) : Option Task :=
  (s.get? id).filter fun t => t.queue == some .ready || t.queue == some .wait

/-- Takes a task out of the store and of the queue that held it. -/
def take (s : TaskStore) (id : TaskId) : Option Task × TaskStore :=
  match s.get? id with
  | none => (none, s)
  | some task =>
    let s := s.unlink task.queue id
    (some task, { s with tasks := s.tasks.filter (·.id != id) })

/-! ## Creation -/

/-- Builds a task for the image at `entry` and puts it at the tail of the ready queue.
    A failure uses up no number. -/
def create {F : Type} [FrameSource F] (s : TaskStore) (mem : Memory F) (entry : VirtAddr)
    (imageSize : Nat) : Except TaskError TaskId × TaskStore × Memory F :=
  let id : TaskId := ⟨s.nextId⟩
  match Task.build mem id entry imageSize with
  | (.error e, mem) => (.error e, s, mem)
  | (.ok task, mem) =>
    let s := { s with tasks := s.tasks ++ [task], nextId := s.nextId + 1 }
    (.ok id, (s.enqueue .ready id).2, mem)

end TaskStore

end TaskKernel
