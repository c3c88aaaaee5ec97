/-
  TaskKernel.Device.Bus

  The device registers that the processor sees.
-/
import TaskKernel.Layout

namespace TaskKernel

/-- Device registers by kernel address. -/
structure Bus where
  read : VirtAddr → BitVec 32

/-- A bus without devices: reads give zero and writes vanish. -/
def Bus.inert : Bus := ⟨fun _ => 0⟩

end TaskKernel
