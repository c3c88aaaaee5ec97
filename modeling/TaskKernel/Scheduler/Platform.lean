/-
  TaskKernel.Scheduler.Platform

  The hardware effects that scheduling and launching ask for, and a recorder
  that keeps track of them without a processor.
-/
import TaskKernel.Address

namespace TaskKernel

/-- The mask bit of ordinary interrupts in the interrupt mask word. -/
def irqMaskBit : Word := 1#64 <<< 7

/-- Hardware effects on a state `P`. -/
class Platform (P : Type) where
  /-- Masks interrupts and returns the mask word from before. -/
  irqDisable : P → Word × P
  /-- Puts a mask word back. -/
  irqRestore : P → Word → P
  /-- Lets the timer interrupt through. -/
  timerEnable : P → P
  /-- Holds the timer interrupt back. -/
  timerDisable : P → P
  /-- Installs a root table for the user half. -/
  setPageTable : P → PhysAddr → P
  /-- The root table installed last. -/
  activePageTable : P → PhysAddr

/-- A platform that only records what it was asked for. -/
structure Recorder where
  irqMasked : Bool
  timerEnabled : Bool
  pageTable : PhysAddr
  pageTableLoads : Nat
  irqDisables : Nat
deriving DecidableEq, Repr

namespace Recorder

/-- Interrupts and timer on, no table installed. -/
def new : Recorder := ⟨false, true, ⟨0⟩, 0, 0⟩

instance : Platform Recorder where
  irqDisable p :=
    (if p.irqMasked then irqMaskBit else 0,
      { p with irqMasked := true, irqDisables := p.irqDisables + 1 })
  irqRestore p word := { p with irqMasked := word != 0 }
  timerEnable p := { p with timerEnabled := true }
  timerDisable p := { p with timerEnabled := false }
  setPageTable p root := { p with pageTable := root, pageTableLoads := p.pageTableLoads + 1 }
  activePageTable p := p.pageTable

end Recorder

end TaskKernel
