/-
  TaskKernel.Interrupt.Hosted

  A core without hardware underneath: it keeps its mask word and its root table, its
  other registers read as zero, and it can neither halt nor enter user mode.
-/
import TaskKernel.Device.Timer
import TaskKernel.Interrupt.Core

namespace TaskKernel

/-- What a core can be asked for. -/
inductive CoreRequest where
  | irqEnable
  | irqDisable
  | irqRestore (mask : Word)
  | timerEnable
  | timerDisable
  | setPageTable (root : PhysAddr)
  | flushTlb
  | waitForInterrupt
  | readRegister (addr : VirtAddr)
  | writeRegister (addr : VirtAddr) (value : BitVec 32)
  | readSyndrome
  | readFaultAddress
  | timerFrequency
  | halt
  | enterUser (entry userSp kernelSp : Word)
deriving DecidableEq, Repr

/-- What a request gives back. -/
inductive CoreAnswer where
  | done
  | maskWord (mask : Word)
  | number (n : Nat)
  | register (w : Word)
deriving DecidableEq, Repr

/-- Carries a request out; nothing for the two a hosted core cannot do. -/
def Core.perform {L : Type} (core : Core L) (bus : Bus) : CoreRequest → Option (CoreAnswer × Core L)
  | .irqEnable => some (.done, core.irqEnable)
  | .irqDisable =>
    let (mask, core) := core.irqDisable
    some (.maskWord mask, core)
  | .irqRestore mask => some (.done, core.irqRestore mask)
  | .timerEnable => some (.done, Platform.timerEnable core)
  | .timerDisable => some (.done, Platform.timerDisable core)
  | .setPageTable root => some (.done, Platform.setPageTable core root)
  | .flushTlb => some (.done, core)
  | .waitForInterrupt => some (.done, core)
  | .readRegister addr => some (.number (bus.read addr).toNat, core)
  | .writeRegister _ _ => some (.done, core)
  | .readSyndrome => some (.register 0, core)
  | .readFaultAddress => some (.register 0, core)
  | .timerFrequency => some (.number Timer.hostedFrequency, core)
  | .halt => none
  | .enterUser _ _ _ => none

end TaskKernel
