/-
  TaskKernel.Kernel.State

  The kernel as one value: the core it runs on, its scheduler and console behind
  their locks, memory with the kernel heap as the source of frames, also behind a
  lock, and what boot installs once.
-/
import TaskKernel.Archive.Reader
import TaskKernel.Device.Timer
import TaskKernel.Interrupt.Core
import TaskKernel.Memory.KernelHeap

namespace TaskKernel

/-- The locks of the kernel. -/
inductive KernelLock where
  | scheduler
  | console
  | heap
deriving DecidableEq, Repr

/-- Everything the kernel's entry points act on. -/
structure Kernel where
  core : Core KernelLock
  scheduler : Scheduler
  memory : Memory KernelHeap
  /-- The boot archive, once it was installed. -/
  archive : Option Archive
  timer : Timer
  bus : Bus
  /-- Frame of the signal return page; a hosted kernel has none. -/
  trampoline : PhysAddr

namespace Kernel

/-- A hosted kernel at power-on: no tasks, no heap, no archive, no devices. -/
def poweredOn : Kernel :=
  { core := .withMask 0
    scheduler := .empty
    memory := ⟨.zero, .unstarted⟩
    archive := none
    timer := .unstarted
    bus := .inert
    trampoline := ⟨0⟩ }

/-! ## Interrupts and locks -/

def irqDisable (k : Kernel) : Word × Kernel :=
  let (saved, core) := k.core.irqDisable
  (saved, { k with core })

def irqRestore (k : Kernel) (mask : Word) : Kernel := { k with core := k.core.irqRestore mask }

/-- Runs `f` while holding a lock. -/
def withLock {α : Type} (k : Kernel) (lock : KernelLock) (f : Kernel → α × Kernel) : α × Kernel :=
  let (guard, core) := k.core.acquire lock
  let (result, k) := f { k with core }
  (result, { k with core := k.core.release guard })

/-- Prints a line on the console. A bus without devices swallows the text; what
    remains is taking the console's lock and letting go of it. -/
def print (k : Kernel) : Kernel := (k.withLock .console fun k => ((), k)).2

/-! ## Memory -/

/-- Takes the heap's lock and lets go of it, again and again. -/
def takeHeapTurns (k : Kernel) : Nat → Kernel
  | 0 => k
  | n + 1 => (k.withLock .heap fun k => ((), k)).2.takeHeapTurns n

/-- Memory for work that asks for frames. -/
def lockedMemory (k : Kernel) : Memory LockedHeap := ⟨k.memory.ram, ⟨k.memory.frames, 0⟩⟩

/-- Stores memory after such work. Every request was a turn of the heap's lock; nothing but
    the heap is concerned within a turn, so the turns may as well follow one another. -/
def putMemory (k : Kernel) (memory : Memory LockedHeap) : Kernel :=
  takeHeapTurns { k with memory := ⟨memory.ram, memory.frames.heap⟩ } memory.frames.turns

def allocateFrames (k : Kernel) (size : Nat) : Option PhysAddr × Kernel :=
  let (pa, memory) := k.lockedMemory.allocate size
  (pa, k.putMemory memory)

def releaseFrames (k : Kernel) (pa : PhysAddr) (size : Nat) : Kernel :=
  k.putMemory (k.lockedMemory.release pa size)

/-! ## Boot -/

def startTimer (k : Kernel) (frequency : Nat) : Kernel :=
  { k with timer := k.timer.start frequency }

/-- Makes the bytes between two kernel addresses the boot archive. Once an archive is
    installed it stays, and later requests return it. -/
def installArchive (k : Kernel) (start stop : VirtAddr) : Except Archive.ArchiveError Archive × Kernel :=
  match k.archive with
  | some archive => (.ok archive, k)
  | none =>
    let bytes :=
      k.memory.ram.readBytes (LinearWindow.kernel.toPhys start) (stop.toNat - start.toNat)
    match Archive.ofBytes bytes with
    | .error e => (.error e, k)
    | .ok archive => (.ok archive, { k with archive := some archive })

/-- Starts the kernel heap on the heap region, away from the given physical ranges. -/
def startHeap (k : Kernel) (region : KernelHeap.Region) (reserved : List (PhysAddr × PhysAddr)) :
    Kernel :=
  (k.withLock .heap fun k =>
    let frames := k.memory.frames.startOn region reserved
    ((), { k with memory := { k.memory with frames } })).2

end Kernel

end TaskKernel
