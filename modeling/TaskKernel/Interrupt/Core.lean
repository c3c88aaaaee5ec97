/-
  TaskKernel.Interrupt.Core

  One processor core as far as interrupts go: its interrupt mask word, the root
  table it translates with, and the locks held on it. A lock masks interrupts while
  it is held, so a handler never waits for a lock of its own core; the guard of a
  lock keeps the mask word to put back.
-/
import TaskKernel.Scheduler.Platform

namespace TaskKernel

/-- Mask word and held locks at one moment. -/
structure Moment (L : Type) where
  mask : Word
  held : List L
deriving DecidableEq, Repr

/-- A core with locks named by `L`. -/
structure Core (L : Type) where
  /-- The interrupt mask word. -/
  mask : Word
  /-- Root table of the user half. -/
  pageTable : PhysAddr
  /-- Locks that are held, the latest first. -/
  held : List L
  /-- Mask word and held locks after each effect so far, the latest first. -/
  history : List (Moment L)
deriving DecidableEq, Repr

/-- What the holder of a lock keeps until it lets go. -/
structure Guard (L : Type) where
  lock : L
  /-- Mask word from before the lock was taken. -/
  saved : Word
deriving DecidableEq, Repr

namespace Core

variable {L : Type}

/-- No lock held, no table installed. -/
def withMask (mask : Word) : Core L := ⟨mask, ⟨0⟩, [], []⟩

/-- Adds the present moment to the history. -/
def record (core : Core L) : Core L :=
  { core with history := ⟨core.mask, core.held⟩ :: core.history }

/-! ## Interrupt mask -/

def setMask (core : Core L) (mask : Word) : Core L := { core with mask }.record

/-- Lets all interrupts through. -/
def irqEnable (core : Core L) : Core L := core.setMask 0

/-- Masks interrupts and returns the mask word from before. -/
def irqDisable (core : Core L) : Word × Core L := (core.mask, core.setMask irqMaskBit)

def irqRestore (core : Core L) (mask : Word) : Core L := core.setMask mask

/-! ## Locks -/

/-- Takes a lock that is free. On one core a lock that is held never becomes free while
    its taker waits, so this must not be asked for a held lock. -/
def acquire (core : Core L) (lock : L) : Guard L × Core L :=
  let (saved, core) := core.irqDisable
  (⟨lock, saved⟩, { core with held := lock :: core.held }.record)

variable [DecidableEq L]

def isHeld (core : Core L) (lock : L) : Bool := core.held.contains lock

/-- Takes a lock if it is free; otherwise puts the mask word back. -/
def tryAcquire (core : Core L) (lock : L) : Option (Guard L) × Core L :=
  let (saved, core) := core.irqDisable
  if core.isHeld lock then (none, core.irqRestore saved)
  else (some ⟨lock, saved⟩, { core with held := lock :: core.held }.record)

/-- Lets go of a lock, then puts the mask word of its guard back. -/
def release (core : Core L) (guard : Guard L) : Core L :=
  ({ core with held := core.held.erase guard.lock }.record).irqRestore guard.saved

end Core

/-! ## The core as a platform -/

/-- On a core without devices the timer gate has no effect. -/
instance {L : Type} : Platform (Core L) where
  irqDisable := Core.irqDisable
  irqRestore := Core.irqRestore
  timerEnable core := core
  timerDisable core := core
  setPageTable core root := { core with pageTable := root }.record
  activePageTable core := core.pageTable

/-! ## Values behind locks -/

/-- A core with numbers that are each guarded by a lock. -/
structure LockBank (n : Nat) where
  core : Core (Fin n)
  values : Vector Word n
  /-- Guards of the locks that are held, the latest first. -/
  guards : List (Guard (Fin n))
deriving DecidableEq, Repr

namespace LockBank

variable {n : Nat}

def withMask (mask : Word) : LockBank n := ⟨.withMask mask, Vector.replicate n 0, []⟩

def guardOf? (bank : LockBank n) (lock : Fin n) : Option (Guard (Fin n)) :=
  bank.guards.find? (·.lock == lock)

/-- Takes a lock; nothing if that would never return. -/
def acquire? (bank : LockBank n) (lock : Fin n) : Option (LockBank n) :=
  if bank.core.isHeld lock then none
  else
    let (guard, core) := bank.core.acquire lock
    some { bank with core, guards := guard :: bank.guards }

/-- Takes a lock if it is free, and says whether it was. -/
def tryAcquire (bank : LockBank n) (lock : Fin n) : Bool × LockBank n :=
  match bank.core.tryAcquire lock with
  | (none, core) => (false, { bank with core })
  | (some guard, core) => (true, { bank with core, guards := guard :: bank.guards })

/-- Adds to the number of a held lock and returns the sum; nothing if it is not held. -/
def add? (bank : LockBank n) (lock : Fin n) (d : Word) : Option (Word × LockBank n) :=
  (bank.guardOf? lock).map fun _ =>
    let sum := bank.values[lock] + d
    (sum, { bank with values := bank.values.set lock sum })

/-- Lets go of a lock and returns its number; nothing if it is not held. -/
def release? (bank : LockBank n) (lock : Fin n) : Option (Word × LockBank n) :=
  (bank.guardOf? lock).map fun guard =>
    (bank.values[lock],
      { bank with
        core := bank.core.release guard
        guards := bank.guards.erase guard })

end LockBank

end TaskKernel
