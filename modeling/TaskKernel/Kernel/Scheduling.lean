/-
  TaskKernel.Kernel.Scheduling

  The entry points around the scheduler. Each takes the scheduler's lock for the
  decision, lets go of it before a switch is carried out, and leaves the interrupt
  mask as it found it.
-/
import TaskKernel.Kernel.State

namespace TaskKernel.Kernel

/-! ## Carrying out a decision -/

/-- Runs a scheduling decision under the scheduler's lock. -/
def decide {α : Type} (k : Kernel)
    (f : Scheduler → Core KernelLock → α × Scheduler × Core KernelLock) : α × Kernel :=
  k.withLock .scheduler fun k =>
    let (result, scheduler, core) := f k.scheduler k.core
    (result, { k with scheduler, core })

/-- Runs a change of the scheduler that needs no hardware under its lock. -/
def update {α : Type} (k : Kernel) (f : Scheduler → α × Scheduler) : α × Kernel :=
  k.withLock .scheduler fun k =>
    let (result, scheduler) := f k.scheduler
    (result, { k with scheduler })

/-- Carries a decision out once the lock is free. Control comes back from a switch when
    the outgoing task gets its next turn; the mask word of the decision is put back then. -/
def complete (k : Kernel) : Except SchedulerError Outcome → Kernel
  | .ok (.switch switch) => k.irqRestore switch.irqState
  | .ok _ => k
  | .error _ => k.print

/-! ## Entry points -/

/-- Creates the idle task from the code at `entry`. -/
def init (k : Kernel) (entry : VirtAddr) : Except TaskError TaskId × Kernel :=
  k.withLock .scheduler fun k =>
    let (result, scheduler, memory) := k.scheduler.init k.lockedMemory entry
    let k := putMemory { k with scheduler } memory
    match result with
    | .ok id => (.ok id, k.print)
    | .error e => (.error e, k)

/-- Gives the processor to the next task. -/
def schedule (k : Kernel) : Kernel :=
  let (saved, k) := k.irqDisable
  let (result, k) := k.decide fun s core => s.schedule core
  (k.complete result).irqRestore saved

/-- Counts a timer tick and gives the next task its turn if a task is running. -/
def tick (k : Kernel) : Kernel :=
  match k.update Scheduler.tick with
  | (true, k) => k.schedule
  | (false, k) => k

/-- Handles an interrupt: only the timer is listened to. -/
def handleIrq (k : Kernel) : Kernel := if Timer.isPending k.bus then k.tick else k

/-- Terminates the running task. Control never comes back to it; once nothing else is
    runnable the core waits for interrupts. -/
def exit (k : Kernel) : Kernel :=
  let (_, k) := k.irqDisable
  let (result, k) := k.decide fun s core => s.exit core
  k.complete result

def kill (k : Kernel) (id : TaskId) : Except SchedulerError Unit × Kernel :=
  let (saved, k) := k.irqDisable
  let (result, k) := k.withLock .scheduler fun k =>
    let (result, scheduler, core) := k.scheduler.terminate id k.core
    let k := { k with scheduler, core }
    match result with
    | .ok .filed => (result, k.print)
    | _ => (result, k)
  let outcome := result.map Termination.outcome
  (outcome.map fun _ => (), (k.complete outcome).irqRestore saved)

def blockCurrent (k : Kernel) : Kernel :=
  let (saved, k) := k.irqDisable
  let (result, k) := k.decide fun s core => s.blockCurrent core
  (k.complete result).irqRestore saved

/-- Makes a blocked task runnable. -/
def wake (k : Kernel) (id : TaskId) : Except SchedulerError Unit × Kernel :=
  k.update fun s => s.wake id

def currentId (k : Kernel) : Option TaskId × Kernel := k.update fun s => (s.current, s)

/-- Drops every zombie and returns how many there were; each gets a line on the console. -/
def reap (k : Kernel) : Nat × Kernel :=
  k.withLock .scheduler fun k =>
    let (ids, scheduler, memory) := k.scheduler.reap k.lockedMemory
    (ids.length, ids.foldl (fun k _ => k.print) (putMemory { k with scheduler } memory))

/-! ## Programs -/

/-- Prints what a launch came to, as far as it is worth a line. -/
def printLaunch (k : Kernel) : Except LaunchError LaunchTarget → Kernel
  | .error .outOfMemory => k
  | .error (.scheduler _) => k
  | .error (.task (.notFound _)) => k
  | _ => k.print

/-- Starts a program from the boot archive. On success the core enters user mode in the
    new task and does not come back. -/
def launch (k : Kernel) (name : String) (mode : LaunchMode) :
    Except LaunchError LaunchTarget × Kernel :=
  let (saved, k) := k.irqDisable
  match k.archive with
  | none => (.error .notFound, k.print.irqRestore saved)
  | some archive =>
    let (result, k) := k.withLock .scheduler fun k =>
      let (result, scheduler, memory, core) :=
        k.scheduler.prepare k.lockedMemory k.core archive name mode
      (result, (putMemory { k with scheduler, core } memory).printLaunch result)
    match result with
    -- The core goes to user mode with interrupts still masked.
    | .ok target => (.ok target, k)
    | .error e => (.error e, k.irqRestore saved)

end TaskKernel.Kernel
