/-
  TaskKernel.Proofs.Machine.Runs

  A scheduler on one physical memory, and whatever is asked of the two over time: requests
  to the scheduler, handlers for signals, frames that the caller takes for images, and
  limits on what the frame source still hands out. The platform may be in any state at each
  request, since its users change it in between.
-/
import TaskKernel.Memory.FramePool
import TaskKernel.Proofs.Scheduler.Effects

namespace TaskKernel

/-- A source of frames that can be told to fail. -/
class LimitedSource (F : Type) where
  /-- Lets so many more requests through and fails all after them. -/
  failAfter : F → Nat → F

instance : LimitedSource FramePool := ⟨FramePool.failAfter⟩

/-! ## Spaces -/

section

variable {F S : Type} [FrameSource F] [ImageSource S]

/-- Root of the space that building a task makes. The space is made when both stacks are
    there, and it remains if the task cannot be finished. -/
def Task.rootMade? (mem : Memory F) : Option PhysAddr :=
  match mem.allocate Layout.kernelStackSize with
  | (none, _) => none
  | (some _, mem) =>
    match mem.allocate Layout.userStackSize with
    | (none, _) => none
    | (some _, mem) => (AddressSpace.new mem).1.toOption.map AddressSpace.root

/-- Root of the space that a request makes. -/
def Request.rootMade? (mem : Memory F) : Request S → Option PhysAddr
  | .init _ | .create _ _ => Task.rootMade? mem
  | .prepare images name _ =>
    let size := ImageSource.sizeOf images name
    if size = 0 then none
    else
      match mem.allocate (pageRoundUp size) with
      | (none, _) => none
      | (some image, mem) =>
        Task.rootMade? (mem.mapRam fun ram => loadImage ram images name image size)
  | _ => none

end

/-! ## Machines -/

/-- The tasks and the memory that they share. -/
structure Machine (F : Type) where
  scheduler : Scheduler
  memory : Memory F
  /-- What the caller has taken from the frame source to keep images in. -/
  supplied : List Allocation
  /-- The image buffers of the tasks that were launched. -/
  launched : List Allocation
  /-- Root tables of all address spaces that were made, the oldest first. Those of tasks
      that could not be finished or are gone are among them. -/
  roots : List PhysAddr

/-- What can be asked of a machine. -/
inductive MachineRequest (P S : Type) where
  /-- Lets the frame source hand out `n` more allocations and no more. -/
  | limit (n : Nat)
  | supply (size : Nat)
  | handler (id : TaskId) (signum : Int) (addr : Word)
  | ask (request : Request S) (hw : P)

namespace Machine

variable {F : Type}

/-- A machine without tasks. -/
def fresh (memory : Memory F) : Machine F := ⟨.empty, memory, [], [], []⟩

/-- What the live tasks hold. -/
def holdings (m : Machine F) : List Holding := m.scheduler.store.holdings

/-- The image buffer of the task that a launch has started. -/
def launchedImages (answer : Answer) (store : TaskStore) : List Allocation :=
  ((answer.launched?.bind store.get?).map fun task => task.holding.image).toList

section

variable {P S : Type} [FrameSource F] [LimitedSource F] [Platform P] [ImageSource S]

def perform (trampoline : PhysAddr) (m : Machine F) : MachineRequest P S → Machine F
  | .limit n =>
    { m with memory := { m.memory with frames := LimitedSource.failAfter m.memory.frames n } }
  | .supply size =>
    match m.memory.allocate size with
    | (none, memory) => { m with memory }
    | (some base, memory) => { m with memory, supplied := m.supplied ++ [⟨base, size⟩] }
  | .handler id signum addr =>
    match m.scheduler.store.get? id with
    | none => m
    | some task =>
      let (_, task, memory) := task.registerHandler m.memory signum addr trampoline
      { m with scheduler := m.scheduler.modify id fun _ => task, memory }
  | .ask request hw =>
    let (answer, scheduler, memory, _) := m.scheduler.answer m.memory hw request
    { m with
      scheduler
      memory
      launched := m.launched ++ launchedImages answer scheduler.store
      roots := m.roots ++ (request.rootMade? m.memory).toList }

/-- What becomes of a machine is told by the answer and what it leaves behind. -/
theorem perform_ask (trampoline : PhysAddr) (m : Machine F) (request : Request S) (hw : P) :
    m.perform trampoline (.ask request hw) =
      ⟨(m.scheduler.answer m.memory hw request).2.1, (m.scheduler.answer m.memory hw request).2.2.1,
        m.supplied, m.launched ++ launchedImages (m.scheduler.answer m.memory hw request).1
          (m.scheduler.answer m.memory hw request).2.1.store,
        m.roots ++ (request.rootMade? m.memory).toList⟩ := rfl

/-- The machines that requests which `Admits` allows lead to from `start`. -/
inductive Run (trampoline : PhysAddr) (Admits : Machine F → MachineRequest P S → Prop)
    (start : Machine F) : Machine F → Prop
  | start : Run trampoline Admits start start
  | step {m : Machine F} (run : Run trampoline Admits start m) (request : MachineRequest P S)
      (admitted : Admits m request) : Run trampoline Admits start (m.perform trampoline request)

end

end Machine

end TaskKernel
