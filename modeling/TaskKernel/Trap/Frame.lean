/-
  TaskKernel.Trap.Frame

  The registers of user mode as saved on entry to the kernel.
-/
import TaskKernel.Word

namespace TaskKernel

/-- Register state at the moment user mode was left. -/
structure TrapFrame where
  /-- General registers x0 to x30. -/
  x : Vector Word 31
  sp : Word
  /-- Address at which user mode goes on. -/
  pc : Word
  /-- Saved processor state. -/
  psr : Word
deriving DecidableEq, Repr

namespace TrapFrame

def zero : TrapFrame := ⟨Vector.replicate 31 0, 0, 0, 0⟩

/-- The frame with general register `i` replaced. -/
def setReg (frame : TrapFrame) (i : Fin 31) (w : Word) : TrapFrame :=
  { frame with x := frame.x.set i w }

@[simp] theorem x_setReg_self (frame : TrapFrame) (i : Fin 31) (w : Word) :
    (frame.setReg i w).x[i] = w :=
  Vector.getElem_set_self i.isLt

theorem x_setReg_of_ne (frame : TrapFrame) {i j : Fin 31} (w : Word) (h : j ≠ i) :
    (frame.setReg i w).x[j] = frame.x[j] :=
  Vector.getElem_set_ne i.isLt j.isLt fun heq => h (Fin.ext heq.symm)

/-- Bytes of a saved frame: 34 registers. -/
def byteSize : Nat := (31 + 3) * 8

end TrapFrame

end TaskKernel
