/-
  TaskKernel.Proofs.Scheduler.Requests

  Everything that can be asked of a scheduler as one type of requests, and the runs
  that requests make from the empty scheduler on. A run fixes neither memory nor
  platform: each request meets whatever memory, frame source and hardware state the
  rest of the machine has left by then, so a property of all runs covers every way
  of running out of frames.
-/
import TaskKernel.Launch

namespace TaskKernel

/-! ## Requests and answers -/

/-- What can be asked of a scheduler; `S` is the kind of image source for launches. -/
inductive Request (S : Type) where
  | init (entry : VirtAddr)
  | create (entry : VirtAddr) (imageSize : Nat)
  | prepare (images : S) (name : String) (mode : LaunchMode)
  | schedule
  | tick
  | terminate (id : TaskId)
  | exit
  | blockCurrent
  | wake (id : TaskId)
  | adopt (id : TaskId) (mode : Scheduler.Outgoing)
  | reap

/-- What comes back from a request. -/
inductive Answer where
  | created (result : Except TaskError TaskId)
  | launched (result : Except LaunchError LaunchTarget)
  | decided (result : Except SchedulerError Outcome)
  | terminated (result : Except SchedulerError Termination)
  | changed (result : Except SchedulerError Unit)
  | ticked (again : Bool)
  | reaped (ids : List TaskId)

namespace Answer

/-- The number of the task that the request created. -/
def createdId? : Answer → Option TaskId
  | created (.ok id) => some id
  | launched (.ok target) => some target.task
  | _ => none

/-- The error of the scheduler in an answer. -/
def schedulerError? : Answer → Option SchedulerError
  | launched (.error (.scheduler e)) => some e
  | decided (.error e) => some e
  | terminated (.error e) => some e
  | changed (.error e) => some e
  | _ => none

end Answer

namespace Scheduler

variable {F P S : Type} [FrameSource F] [Platform P] [ImageSource S]

/-- Answers a request. -/
def answer (s : Scheduler) (mem : Memory F) (hw : P) :
    Request S → Answer × Scheduler × Memory F × P
  | .init entry =>
    let (result, s, mem) := s.init mem entry
    (.created result, s, mem, hw)
  | .create entry imageSize =>
    let (result, s, mem) := s.createTask mem entry imageSize
    (.created result, s, mem, hw)
  | .prepare images name mode =>
    let (result, s, mem, hw) := s.prepare mem hw images name mode
    (.launched result, s, mem, hw)
  | .schedule =>
    let (result, s, hw) := s.schedule hw
    (.decided result, s, mem, hw)
  | .tick =>
    let (again, s) := s.tick
    (.ticked again, s, mem, hw)
  | .terminate id =>
    let (result, s, hw) := s.terminate id hw
    (.terminated result, s, mem, hw)
  | .exit =>
    let (result, s, hw) := s.exit hw
    (.decided result, s, mem, hw)
  | .blockCurrent =>
    let (result, s, hw) := s.blockCurrent hw
    (.decided result, s, mem, hw)
  | .wake id =>
    let (result, s) := s.wake id
    (.changed result, s, mem, hw)
  | .adopt id mode =>
    let (result, s) := s.adopt id mode
    (.changed result, s, mem, hw)
  | .reap =>
    let (ids, s, mem) := s.reap mem
    (.reaped ids, s, mem, hw)

/-- The idle task is created only while no task is running; nothing else is restricted. -/
def Admits (s : Scheduler) : Request S → Prop
  | .init _ => s.current = none
  | _ => True

end Scheduler

/-! ## Runs -/

section

variable (F P S : Type) [FrameSource F] [Platform P] [ImageSource S]

/-- `Run F P S log s` says that some sequence of requests leads from the empty scheduler
    to `s`, with the answers `log` in order. -/
inductive Run : List Answer → Scheduler → Prop
  | nil : Run [] .empty
  | step {log : List Answer} {s : Scheduler} (run : Run log s) (request : Request S)
      (mem : Memory F) (hw : P) (admitted : s.Admits request) :
      Run (log ++ [(s.answer mem hw request).1]) (s.answer mem hw request).2.1

end

end TaskKernel
