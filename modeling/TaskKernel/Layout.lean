/-
  TaskKernel.Layout

  The fixed addresses and sizes that the mapper, the task builder, the scheduler
  and the boot path agree on.
-/
import TaskKernel.Address

namespace TaskKernel.Layout

/-! ## Physical memory map -/

/-- The window of the system-on-chip's peripherals. -/
def peripheralBase : Word := 0x3f00_0000

/-- The window of the per-core peripherals. -/
def localPeripheralBase : Word := 0x4000_0000

/-- The level-1 table that maps the kernel at boot. -/
def bootUpperTable : PhysAddr := ⟨0x2000⟩

/-- The level-2 table of the first gigabyte. -/
def bootLowTable : PhysAddr := ⟨0x3000⟩

/-- The level-2 table of the second gigabyte. -/
def bootHighTable : PhysAddr := ⟨0x4000⟩

/-- End of the range at the bottom of memory that is never handed out. -/
def bootReservedEnd : PhysAddr := ⟨0x5000⟩

/-- Kernel address of the register at `offset` of the peripheral window. -/
def peripheral (offset : Word) : VirtAddr := ⟨kernelBase + peripheralBase + offset⟩

/-- Kernel address of the register at `offset` of the per-core window. -/
def localPeripheral (offset : Word) : VirtAddr := ⟨kernelBase + localPeripheralBase + offset⟩

/-! ## What a task sees -/

def kernelStackSize : Nat := 4096

def userStackSize : Nat := 3 * kernelStackSize

/-- Where each task sees its user stack. -/
def userStackWindow : VirtAddr := ⟨0xffff_ffff_b000⟩

/-- Where each task's table holds its kernel stack. -/
def kernelStackWindow : VirtAddr := ⟨0xffff_ffff_e000⟩

/-- Where each task sees its program image. -/
def imageBase : VirtAddr := ⟨0⟩

/-- Bytes left free above the first stack pointer. -/
def stackTopReserve : Word := 0x10

/-- The page that holds the signal return code in a task with a handler. -/
def trampolineWindow : VirtAddr := ⟨0xffff_ffff_a000⟩

/-- First user stack pointer, the same for every task. -/
def initialUserSp : Word := userStackWindow.raw + BitVec.ofNat 64 userStackSize - stackTopReserve

/-- End of the user half: its addresses have 48 bits. -/
def userSpaceEnd : Nat := 0x1_0000_0000_0000

theorem initialUserSp_aligned : initialUserSp.toNat % 16 = 0 := by decide

theorem userStackWindow_below_kernelStackWindow :
    userStackWindow.toNat + userStackSize ≤ kernelStackWindow.toNat := by decide

theorem trampolineWindow_below_userStackWindow :
    trampolineWindow.toNat + pageSize ≤ userStackWindow.toNat := by decide

/-! ## Scheduling and programs -/

def defaultPriority : Nat := 1

/-- A tick comes every `frequency / 2 ^ tickShift` counts of the timer. -/
def tickShift : Nat := 5

/-- Number of signal slots of a task, slot 0 included. -/
def signalSlots : Nat := 32

def initProgram : String := "vm.img"

end TaskKernel.Layout
