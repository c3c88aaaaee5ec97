/-
  TaskKernel.Device.Timer

  The preemption timer: how often it ticks, and whether a pending interrupt is its
  own.
-/
import TaskKernel.Device.Bus

namespace TaskKernel

/-- Timer settings; zero stands for a frequency that was not read yet. -/
structure Timer where
  measured : Nat
deriving DecidableEq, Repr

namespace Timer

def unstarted : Timer := ⟨0⟩

/-- Frequency assumed until the timer is started. -/
def defaultFrequency : Nat := 19_200_000

def hostedFrequency : Nat := 1_000_000

/-- Starts the timer on a counter of the given frequency. -/
def start (_ : Timer) (frequency : Nat) : Timer := ⟨frequency⟩

/-- Counts per second. -/
def frequency (t : Timer) : Nat := if t.measured = 0 then defaultFrequency else t.measured

/-- Counts between two ticks. -/
def tickInterval (t : Timer) : Nat := t.frequency >>> Layout.tickShift

/-- The timer's bit in the interrupt source register. -/
def sourceBit : BitVec 32 := 1#32 <<< 1

/-- Register of pending interrupts of the first core. -/
def sourceRegister : VirtAddr := Layout.localPeripheral 0x60

def isPending (bus : Bus) : Bool := bus.read sourceRegister &&& sourceBit != 0

end Timer

end TaskKernel
