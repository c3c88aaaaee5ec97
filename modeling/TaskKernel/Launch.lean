/-
  TaskKernel.Launch

  Starting a program: its image is copied from an image source into fresh frames,
  a task is built around it, its table is installed and it becomes the running
  task. After a failure to build the task the image buffer is given back.
-/
import TaskKernel.Scheduler.Basic

namespace TaskKernel

/-! ## Image sources -/

/-- Where program images come from. -/
class ImageSource (S : Type) where
  /-- Bytes of the named image; 0 if there is none. -/
  sizeOf : S → String → Nat
  /-- Copies the start of the named image over the start of a buffer; returns how
      many bytes were copied and the buffer. -/
  load : S → String → List Byte → Nat × List Byte

/-- The buffer with its start replaced by as much of `bytes` as fits. -/
def overlay (bytes buffer : List Byte) : Nat × List Byte :=
  let n := min bytes.length buffer.length
  (n, bytes.take n ++ buffer.drop n)

/-- Images held by name; of equal names the first counts. -/
structure ImageTable where
  images : List (String × List Byte)
deriving DecidableEq, Repr

def ImageTable.find? (table : ImageTable) (name : String) : Option (List Byte) :=
  (table.images.find? fun image => image.1 == name).map (·.2)

instance : ImageSource ImageTable where
  sizeOf table name := (table.find? name).elim 0 List.length
  load table name buffer := (table.find? name).elim (0, buffer) (overlay · buffer)

/-! ## Errors -/

/-- Why a launch failed. -/
inductive LaunchError where
  | notFound
  /-- There was no room for the image. -/
  | outOfMemory
  | task (error : TaskError)
  | scheduler (error : SchedulerError)
deriving DecidableEq, Repr

/-- Short name of an error, its cause after a dot. -/
def LaunchError.code : LaunchError → String
  | notFound => "NotFound"
  | outOfMemory => "OutOfMemory"
  | task error => "Task." ++ error.code
  | scheduler error => "Sched." ++ error.code

def LaunchError.message : LaunchError → String
  | notFound => "file not found"
  | outOfMemory => "out of memory for the image"
  | task error => "task creation failed: " ++ error.message
  | scheduler error => "scheduler refused the task: " ++ error.message

instance : Reported LaunchError := ⟨LaunchError.code, LaunchError.message⟩

/-! ## Launching -/

/-- What happens to the task that asked for the launch. -/
inductive LaunchMode where
  /-- It goes back to the ready queue. -/
  | spawn
  /-- It is retired to the zombie queue. -/
  | replace
deriving DecidableEq, Repr

/-- The way the outgoing task is filed. -/
def LaunchMode.outgoing : LaunchMode → Scheduler.Outgoing
  | spawn => .keep
  | replace => .retire

/-- Everything needed to enter user mode in the new task. -/
structure LaunchTarget where
  task : TaskId
  entry : VirtAddr
  userSp : Word
  kernelSp : VirtAddr
  pageTable : PhysAddr
deriving DecidableEq, Repr

/-- Loads the named image to the frames at `image` and clears the rest of them. -/
def loadImage {S : Type} [ImageSource S] (ram : Ram) (images : S) (name : String)
    (image : PhysAddr) (size : Nat) : Ram :=
  let (copied, buffer) := ImageSource.load images name (ram.readBytes image size)
  ram.writeBytes image
    (buffer.take copied ++ List.replicate (pageRoundUp size - copied) 0)

namespace Scheduler

variable {F P S : Type} [FrameSource F] [Platform P] [ImageSource S]

/-- Makes the fresh task `id` the running one with its table installed. -/
def enterTask (s : Scheduler) (hw : P) (id : TaskId) (mode : LaunchMode) :
    Except LaunchError LaunchTarget × Scheduler × P :=
  match s.store.get? id with
  | none => (.error (.task (.notFound id)), s, Platform.timerEnable hw)
  | some task =>
    let hw := Platform.timerEnable (Platform.setPageTable hw task.pageTable)
    match s.adopt id mode.outgoing with
    | (.error e, s) => (.error (.scheduler e), s, hw)
    | (.ok (), s) =>
      (.ok {
        task := id
        entry := Layout.imageBase
        userSp := task.context.sp
        kernelSp := task.kernelStack.top
        pageTable := task.pageTable }, s, hw)

/-- Loads the named image, creates its task, installs its table and makes it the
    running task. Interrupts must be masked. -/
def prepare (s : Scheduler) (mem : Memory F) (hw : P) (images : S) (name : String)
    (mode : LaunchMode) : Except LaunchError LaunchTarget × Scheduler × Memory F × P :=
  let size := ImageSource.sizeOf images name
  if size = 0 then (.error .notFound, s, mem, hw)
  else
    match mem.allocate (pageRoundUp size) with
    | (none, mem) => (.error .outOfMemory, s, mem, hw)
    | (some image, mem) =>
      let mem := mem.mapRam fun ram => loadImage ram images name image size
      let hw := Platform.timerDisable hw
      match s.createTask mem (LinearWindow.kernel.toVirt image) size with
      | (.error e, s, mem) =>
        (.error (.task e), s, mem.release image (pageRoundUp size), Platform.timerEnable hw)
      | (.ok id, s, mem) =>
        let (result, s, hw) := s.enterTask hw id mode
        (result, s, mem, hw)

end Scheduler

end TaskKernel
