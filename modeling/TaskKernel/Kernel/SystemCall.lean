/-
  TaskKernel.Kernel.SystemCall

  System calls: the number is in x8, arguments are in x0 and x1, and the result goes
  back in x0, all ones for any failure. User buffers are reached through the
  caller's own tables only.
-/
import TaskKernel.Device.Uart
import TaskKernel.Kernel.Scheduling
import TaskKernel.Task.SignalHandlers
import TaskKernel.PageTable.UserAccess

namespace TaskKernel

/-! ## Requests -/

/-- What user mode asks for. -/
inductive SystemCall where
  | getPid
  | uartRead (buffer : VirtAddr) (length : Nat)
  | uartWrite (buffer : VirtAddr) (length : Nat)
  | exec (name : VirtAddr)
  | fork
  | exit
  | mailbox
  | kill (id : TaskId)
  | signal (signum : Int) (handler : Word)
  | sigKill (id : TaskId) (signum : Int)
  | sigReturn
  | yield
  /-- An argument is too large for what it stands for. -/
  | badArgument (number value : Word)
  | unknown (number : Word)
deriving DecidableEq, Repr

namespace SystemCall

def name : SystemCall → String
  | getPid => "GetPid"
  | uartRead _ _ => "UartRead"
  | uartWrite _ _ => "UartWrite"
  | exec _ => "Exec"
  | fork => "Fork"
  | exit => "Exit"
  | mailbox => "MboxCall"
  | kill _ => "Kill"
  | signal _ _ => "Signal"
  | sigKill _ _ => "SigKill"
  | sigReturn => "SigReturn"
  | yield => "Yield"
  | badArgument _ _ => "BadArgument"
  | unknown _ => "Unknown"

/-- A task number in an argument: it has 32 bits. -/
def taskIdOf? (value : Word) : Option TaskId :=
  if value.toNat < 0x1_0000_0000 then some ⟨value.toNat⟩ else none

/-- A signal number in an argument: it has 31 bits. -/
def signumOf? (value : Word) : Option Int :=
  if value.toNat < 0x8000_0000 then some value.toNat else none

/-- The call that a frame asks for. -/
def decode (frame : TrapFrame) : SystemCall :=
  let number := frame.x[8]
  let a0 := frame.x[0]
  let a1 := frame.x[1]
  match number.toNat with
  | 0 => getPid
  | 1 => uartRead ⟨a0⟩ a1.toNat
  | 2 => uartWrite ⟨a0⟩ a1.toNat
  | 3 => exec ⟨a0⟩
  | 4 => fork
  | 5 => exit
  | 6 => mailbox
  | 7 => match taskIdOf? a0 with
    | some id => kill id
    | none => badArgument number a0
  | 8 => match signumOf? a0 with
    | some signum => signal signum a1
    | none => badArgument number a0
  | 9 => match taskIdOf? a0, signumOf? a1 with
    | some id, some signum => sigKill id signum
    | none, _ => badArgument number a0
    | _, none => badArgument number a1
  | 10 => sigReturn
  | 11 => yield
  | _ => unknown number

end SystemCall

/-! ## Errors -/

/-- Why a call failed. -/
inductive SystemCallError where
  | access (error : AccessError)
  | invalidArgument (value : Word)
  | noSuchTask (id : TaskId)
  | noCurrentTask
  | notSupported
  | signal (error : SignalError)
  | map (error : MapError)
  | launch (error : LaunchError)
deriving DecidableEq, Repr

namespace SystemCallError

/-- A refused handler seen from the caller. -/
def ofHandlerError : HandlerError → SystemCallError
  | .signal e => .signal e
  | .map e => .map e

/-- Short name of an error, its cause after a dot. -/
def code : SystemCallError → String
  | access error => error.code
  | invalidArgument _ => "InvalidArgument"
  | noSuchTask _ => "NoSuchTask"
  | noCurrentTask => "NoCurrentTask"
  | notSupported => "NotSupported"
  | signal error => "Signal." ++ error.code
  | map error => "Map." ++ error.code
  | launch error => "Exec." ++ error.code

def message : SystemCallError → String
  | access error => error.message
  | invalidArgument value => "argument " ++ hex value.toNat ++ " out of range"
  | noSuchTask id => "no task " ++ toString id.val
  | noCurrentTask => "no running task"
  | notSupported => "not supported"
  | signal error => error.message
  | map error => error.message
  | launch error => "exec: " ++ error.message

/-- Value in x0 after a failure. -/
def result : Word := BitVec.allOnes 64

end SystemCallError

instance : Reported SystemCallError := ⟨SystemCallError.code, SystemCallError.message⟩

namespace Kernel

/-! ## The calling task -/

/-- Runs `f` on the running task under the scheduler's lock. -/
def withCurrent {α : Type} (k : Kernel)
    (f : Task → Kernel → Except SystemCallError α × Kernel) : Except SystemCallError α × Kernel :=
  k.withLock .scheduler fun k =>
    match k.scheduler.currentTask? with
    | none => (.error .noCurrentTask, k)
    | some task => f task k

/-- Stores what became of a task. -/
def putTask (k : Kernel) (task : Task) : Kernel :=
  { k with scheduler := k.scheduler.modify task.id fun _ => task }

/-! ## Console -/

/-- Bytes moved between console and task at a time. -/
def chunkSize : Nat := 256

def readUser (k : Kernel) (va : VirtAddr) (buffer : List Byte) :
    Except SystemCallError (List Byte) × Kernel :=
  k.withCurrent fun task k =>
    match task.space.copyFrom k.memory.ram va buffer with
    | (.error e, _) => (.error (.access e), k)
    | (.ok (), bytes) => (.ok bytes, k)

def writeUser (k : Kernel) (va : VirtAddr) (bytes : List Byte) : Except SystemCallError Unit × Kernel :=
  k.withCurrent fun task k =>
    let (result, ram) := task.space.copyTo k.memory.ram va bytes
    (result.mapError .access, { k with memory := { k.memory with ram } })

/-- Sends bytes to the console. -/
def sendBytes (k : Kernel) (_ : List Byte) : Kernel := k.print

/-- Receives `n` bytes from the console. -/
def receiveBytes (k : Kernel) (n : Nat) : List Byte × Kernel :=
  k.withLock .console fun k => (Uart.receiveBytes k.bus n, k)

/-- Sends `len` bytes of the running task from `va` on, chunk by chunk. -/
def writeChunks (k : Kernel) (va : VirtAddr) (len : Nat) : Except SystemCallError Unit × Kernel :=
  if 0 < len then
    let n := min chunkSize len
    match k.readUser va (List.replicate n 0) with
    | (.error e, k) => (.error e, k)
    | (.ok bytes, k) => (k.sendBytes bytes).writeChunks (va.plus n) (len - n)
  else (.ok (), k)
termination_by len
decreasing_by simp only [chunkSize]; omega

/-- Fills `len` bytes of the running task from `va` on with received bytes, chunk by
    chunk. -/
def readChunks (k : Kernel) (va : VirtAddr) (len : Nat) : Except SystemCallError Unit × Kernel :=
  if 0 < len then
    let n := min chunkSize len
    let (bytes, k) := k.receiveBytes n
    match k.writeUser va bytes with
    | (.error e, k) => (.error e, k)
    | (.ok (), k) => k.readChunks (va.plus n) (len - n)
  else (.ok (), k)
termination_by len
decreasing_by simp only [chunkSize]; omega

/-- Runs a transfer over a range that lies in the user half; its result is the length. -/
def transfer (k : Kernel) (va : VirtAddr) (len : Nat)
    (run : Kernel → VirtAddr → Nat → Except SystemCallError Unit × Kernel) :
    Except SystemCallError Word × Kernel :=
  if inUserSpace va len then
    let (result, k) := run k va len
    (result.map fun () => BitVec.ofNat 64 len, k)
  else (.error (.access (.badAddress va)), k)

/-! ## Dispatch -/

/-- How the kernel leaves a trap. -/
inductive Exit where
  /-- User mode goes on with this frame. -/
  | resume (frame : TrapFrame)
  /-- User mode starts in a new program. -/
  | enter (target : LaunchTarget)
  /-- The task is gone. -/
  | gone
deriving DecidableEq, Repr

/-- The frame with a result in x0. -/
def resultFrame (frame : TrapFrame) (result : Except SystemCallError Word) : TrapFrame :=
  match result with
  | .ok value => frame.setReg ⟨0, by decide⟩ value
  | .error _ => frame.setReg ⟨0, by decide⟩ SystemCallError.result

/-- Leaves a call with a result; a failure gets a line on the console. -/
def reply (frame : TrapFrame) : Except SystemCallError Word × Kernel → Exit × Kernel
  | (.ok value, k) => (.resume (resultFrame frame (.ok value)), k)
  | (.error e, k) => (.resume (resultFrame frame (.error e)), k.print)

def getPid (k : Kernel) : Except SystemCallError Word × Kernel :=
  match k.currentId with
  | (some id, k) => (.ok (BitVec.ofNat 64 id.val), k)
  | (none, k) => (.error .noCurrentTask, k)

/-- Replaces the running task by the program whose name is at `va`. -/
def exec (k : Kernel) (va : VirtAddr) (frame : TrapFrame) : Exit × Kernel :=
  let (name, k) := k.withCurrent fun task k =>
    ((task.space.readName k.memory.ram va).mapError .access, k)
  match name with
  | .error e => reply frame (.error e, k)
  | .ok name =>
    match k.print.launch name .replace with
    | (.error e, k) => reply frame (.error (.launch e), k)
    | (.ok target, k) => (.enter target, k)

def killTask (k : Kernel) (id : TaskId) : Except SystemCallError Word × Kernel :=
  match k.kill id with
  | (.ok (), k) => (.ok 0, k)
  | (.error _, k) => (.error (.noSuchTask id), k)

/-- Installs a signal handler in the running task. -/
def installHandler (k : Kernel) (signum : Int) (handler : Word) : Except SystemCallError Word × Kernel :=
  k.withCurrent fun task k =>
    let (result, task, memory) := task.registerHandler k.lockedMemory signum handler k.trampoline
    (result.mapError .ofHandlerError, (k.putMemory memory).putTask task)

/-- Makes a signal pending in a task that is ready, waiting or running. -/
def postSignal (k : Kernel) (id : TaskId) (signum : Int) : Except SystemCallError Word × Kernel :=
  k.update fun s =>
    match s.lookup? id with
    | none => (.error (.noSuchTask id), s)
    | some task =>
      match task.signals.post signum with
      | (.error e, _) => (.error (.signal e), s)
      | (.ok (), signals) => (.ok 0, s.modify id fun t => { t with signals })

/-- Returns from a signal handler: the frame it interrupted comes back as a whole. -/
def returnFromHandler (k : Kernel) (frame : TrapFrame) : Exit × Kernel :=
  let (result, k) := k.withCurrent fun task k =>
    match task.signals.sigreturn frame with
    | (true, signals, frame) => (.ok frame, k.putTask { task with signals })
    | (false, _, _) => (.error .notSupported, k)
  match result with
  | .ok frame => (.resume frame, k)
  | .error e => reply frame (.error e, k)

/-- Carries out the call that a frame asks for. -/
def dispatch (k : Kernel) (frame : TrapFrame) : Exit × Kernel :=
  match SystemCall.decode frame with
  | .getPid => reply frame k.getPid
  | .uartRead buffer length => reply frame (k.transfer buffer length readChunks)
  | .uartWrite buffer length => reply frame (k.transfer buffer length writeChunks)
  | .exec name => k.exec name frame
  | .fork => reply frame (.error .notSupported, k)
  | .mailbox => reply frame (.error .notSupported, k)
  | .exit => (.gone, k.exit)
  | .kill id => reply frame (k.killTask id)
  | .signal signum handler => reply frame (k.installHandler signum handler)
  | .sigKill id signum => reply frame (k.postSignal id signum)
  | .sigReturn => k.returnFromHandler frame
  | .yield => reply frame (.ok 0, k.schedule)
  | .badArgument _ value => reply frame (.error (.invalidArgument value), k)
  | .unknown _ => reply frame (.error .notSupported, k.print)

/-! ## Leaving for user mode -/

/-- Delivers at most one pending signal before user mode goes on. -/
def returnToUser (k : Kernel) (frame : TrapFrame) : Exit × Kernel :=
  let (delivery, k) := k.update fun s =>
    match s.currentTask? with
    | none => ((Delivery.nothing, frame), s)
    | some task =>
      let (delivery, signals, frame) := task.signals.deliver frame
      ((delivery, frame), s.modify task.id fun t => { t with signals })
  match delivery with
  | (.nothing, frame) => (.resume frame, k)
  | (.handler _, frame) => (.resume frame, k.print)
  | (.terminate _, _) => (.gone, k.print.exit)

end Kernel

end TaskKernel
