/-
  TaskKernel.Task.Basic

  Tasks and the memory they own. Building a task takes two stacks and a root
  table and maps image, user stack and kernel stack at their fixed windows; a
  failure gives the stacks back, while tables made so far stay allocated.
-/
import TaskKernel.Layout
import TaskKernel.Signal.State
import TaskKernel.PageTable.AddressSpace

namespace TaskKernel

/-! ## Identity and state -/

/-- Number of a task, given out in order of creation and never reused. -/
structure TaskId where
  val : Nat
deriving DecidableEq, Repr

/-- What a task is doing. -/
inductive TaskState where
  | ready
  | running
  | blocked
  | exited
deriving DecidableEq, Repr

/-- The three queues a task can be in. -/
inductive QueueKind where
  | ready
  | wait
  | zombie
deriving DecidableEq, Repr

/-- Registers a switch between tasks saves and restores. -/
structure Context where
  /-- Registers x19 to x28. -/
  saved : Vector Word 10
  fp : Word
  lr : Word
  sp : Word
  /-- Root table of the task. -/
  pageTable : PhysAddr
deriving DecidableEq, Repr

/-- Context of a task that has not run: it starts at `entry` on its user stack. -/
def Context.initial (entry : VirtAddr) (root : PhysAddr) : Context :=
  { saved := Vector.replicate 10 0
    fp := Layout.initialUserSp
    lr := entry.raw
    sp := Layout.initialUserSp
    pageTable := root }

/-! ## Errors -/

/-- What ran out while a task was built. -/
inductive Resource where
  | kernelStack
  | userStack
  | pageTable
deriving DecidableEq, Repr

/-- Name of a resource in messages. -/
def Resource.name : Resource → String
  | kernelStack => "KernelStack"
  | userStack => "UserStack"
  | pageTable => "PageTable"

/-- Why a task could not be built or found. -/
inductive TaskError where
  | outOfMemory (resource : Resource)
  | map (error : MapError)
  | notFound (id : TaskId)
deriving DecidableEq, Repr

namespace TaskError

/-- A mapping error seen from the task: no frame for a table is out of memory. -/
def ofMapError : MapError → TaskError
  | .outOfMemory => .outOfMemory .pageTable
  | e => .map e

/-- Short name of an error, its cause after a dot. -/
def code : TaskError → String
  | outOfMemory resource => "OutOfMemory." ++ resource.name
  | map error => "Map." ++ error.code
  | notFound _ => "NotFound"

def message : TaskError → String
  | outOfMemory resource => "out of memory (" ++ resource.name ++ ")"
  | map error => "mapping failed: " ++ error.message
  | notFound id => "no task with id " ++ toString id.val

end TaskError

instance : Reported TaskError := ⟨TaskError.code, TaskError.message⟩

/-! ## Stacks -/

/-- A run of frames used as a stack. -/
structure Stack where
  base : PhysAddr
  size : Nat
deriving DecidableEq, Repr

/-- End of the stack, as the kernel sees it. -/
def Stack.top (stack : Stack) : VirtAddr := (LinearWindow.kernel.toVirt stack.base).plus stack.size

/-! ## Tasks -/

/-- Everything the kernel knows about a task. -/
structure Task where
  id : TaskId
  state : TaskState
  /-- Timer ticks seen while the task was running. -/
  ticks : Nat
  priority : Nat
  /-- Kernel address of the program image. -/
  entry : VirtAddr
  imageSize : Nat
  context : Context
  kernelStack : Stack
  userStack : Stack
  space : AddressSpace
  signals : SignalState
  /-- The queue that holds the task, if any. -/
  queue : Option QueueKind
deriving DecidableEq, Repr

namespace Task

variable {F : Type} [FrameSource F]

/-- Maps image, user stack and kernel stack at their windows. -/
def mapLayout (space : AddressSpace) (mem : Memory F) (kernelStack userStack : Stack)
    (entry : VirtAddr) (imageSize : Nat) : Except MapError Unit × AddressSpace × Memory F :=
  let image := LinearWindow.kernel.toPhys entry
  match space.map mem Layout.imageBase image imageSize .userNormal with
  | (.error e, space, mem) => (.error e, space, mem)
  | (.ok (), space, mem) =>
    match space.map mem Layout.userStackWindow userStack.base Layout.userStackSize .userNormal with
    | (.error e, space, mem) => (.error e, space, mem)
    | (.ok (), space, mem) =>
      space.map mem Layout.kernelStackWindow kernelStack.base Layout.kernelStackSize .kernelData

/-- Makes an address space with a task's layout. -/
def buildSpace (mem : Memory F) (kernelStack userStack : Stack) (entry : VirtAddr)
    (imageSize : Nat) : Except MapError AddressSpace × Memory F :=
  match AddressSpace.new mem with
  | (.error e, mem) => (.error e, mem)
  | (.ok space, mem) =>
    match mapLayout space mem kernelStack userStack entry imageSize with
    | (.error e, _, mem) => (.error e, mem)
    | (.ok (), space, mem) => (.ok space, mem)

/-- Builds the task `id` for the image of `imageSize` bytes at `entry`. -/
def build (mem : Memory F) (id : TaskId) (entry : VirtAddr) (imageSize : Nat) :
    Except TaskError Task × Memory F :=
  match mem.allocate Layout.kernelStackSize with
  | (none, mem) => (.error (.outOfMemory .kernelStack), mem)
  | (some kernelBase, mem) =>
    let kernelStack : Stack := ⟨kernelBase, Layout.kernelStackSize⟩
    match mem.allocate Layout.userStackSize with
    | (none, mem) =>
      (.error (.outOfMemory .userStack), mem.release kernelStack.base kernelStack.size)
    | (some userBase, mem) =>
      let userStack : Stack := ⟨userBase, Layout.userStackSize⟩
      match buildSpace mem kernelStack userStack entry imageSize with
      | (.error e, mem) =>
        -- Tables made on the way stay allocated, only the stacks go back.
        let mem := mem.release kernelStack.base kernelStack.size
        (.error (.ofMapError e), mem.release userStack.base userStack.size)
      | (.ok space, mem) =>
        (.ok {
          id
          state := .ready
          ticks := 0
          priority := Layout.defaultPriority
          entry
          imageSize
          context := .initial entry space.root
          kernelStack
          userStack
          space
          signals := .new
          queue := none }, mem)

/-- Gives both stacks back; tables and image stay allocated. -/
def release (task : Task) (mem : Memory F) : Memory F :=
  let mem := mem.release task.kernelStack.base task.kernelStack.size
  mem.release task.userStack.base task.userStack.size

def pageTable (task : Task) : PhysAddr := task.context.pageTable

end Task

/-! ## Debug text -/

def TaskState.name : TaskState → String
  | ready => "Ready"
  | running => "Running"
  | blocked => "Blocked"
  | exited => "Exited"

def QueueKind.name : QueueKind → String
  | ready => "Ready"
  | wait => "Wait"
  | zombie => "Zombie"

/-- The task as it appears in a debug line. -/
def Task.debugText (task : Task) : String :=
  let queue := match task.queue with
    | some kind => "Some(" ++ kind.name ++ ")"
    | none => "None"
  "Task \x7b id: TaskId(" ++ toString task.id.val ++ "), state: " ++ task.state.name ++
    ", counter: " ++ toString task.ticks ++ ", entry: " ++ task.entry.debugText ++
    ", queue: " ++ queue ++ " \x7d"

end TaskKernel
