/-
  TaskKernel.Address

  Physical and virtual addresses, kept apart by a type index, and the linear
  window through which the kernel sees physical memory. Arithmetic wraps at 64
  bits, so every conversion is total.
-/
import TaskKernel.Word

namespace TaskKernel

/-- Bytes in a page, a frame and a page table. -/
def pageSize : Nat := 4096

/-! ## Addresses -/

/-- Which address space a number belongs to. -/
inductive AddressKind where
  | physical
  | virtual
deriving DecidableEq, Repr

/-- A 64-bit address of one kind. -/
structure Address (kind : AddressKind) where
  raw : Word
deriving DecidableEq, Repr, Inhabited

/-- An address on the memory bus. -/
abbrev PhysAddr := Address .physical

/-- An address before it is translated, in the kernel half or in a task's user half. -/
abbrev VirtAddr := Address .virtual

namespace Address

variable {kind : AddressKind}

def toNat (a : Address kind) : Nat := a.raw.toNat

def isNull (a : Address kind) : Bool := a.raw == 0

/-- The address rounded down to its page. -/
def pageDown (a : Address kind) : Address kind := ⟨a.raw &&& ~~~(4095#64)⟩

def pageOffset (a : Address kind) : Nat := (a.raw &&& 4095#64).toNat

def isPageAligned (a : Address kind) : Bool := a.raw &&& 4095#64 == 0

/-- Adding a distance wraps at 64 bits. -/
instance : HAdd (Address kind) Word (Address kind) where
  hAdd a d := ⟨a.raw + d⟩

/-- The distance between two addresses, modulo 2 ^ 64. -/
instance : HSub (Address kind) (Address kind) Word where
  hSub a b := a.raw - b.raw

instance : LT (Address kind) where
  lt a b := a.raw < b.raw

instance : DecidableLT (Address kind) :=
  fun a b => inferInstanceAs (Decidable (a.raw < b.raw))

/-- The address `n` bytes further on. -/
def plus (a : Address kind) (n : Nat) : Address kind := a + BitVec.ofNat 64 n

/-- Number of the frame or page the address lies in. -/
def frameNumber (a : Address kind) : Nat := a.toNat / 4096

/-- Position within its frame of the 8-byte word that holds the address. -/
def wordSlot (a : Address kind) : Fin 512 :=
  ⟨a.toNat % 4096 / 8, by omega⟩

/-- The letters that mark an address of this kind in a debug line. -/
def debugTag : AddressKind → String
  | .physical => "PA"
  | .virtual => "VA"

def debugText (a : Address kind) : String :=
  debugTag kind ++ "(" ++ hex a.toNat ++ ")"

end Address

/-! ## Rounding to pages -/

theorem toNat_and_mask12 (w : Word) : (w &&& 4095#64).toNat = w.toNat % 4096 := by
  rw [BitVec.toNat_and]
  exact Nat.and_two_pow_sub_one_eq_mod w.toNat 12

namespace Address

variable {kind : AddressKind}

theorem pageOffset_eq_mod (a : Address kind) : a.pageOffset = a.toNat % 4096 :=
  toNat_and_mask12 a.raw

theorem pageOffset_lt (a : Address kind) : a.pageOffset < pageSize := by
  rw [pageOffset_eq_mod]
  exact Nat.mod_lt _ (by decide)

end Address

/-! ## The user half and the kernel half -/

/-- First address of the kernel half, and what the kernel's window adds to a physical address. -/
def kernelBase : Word := 0xffff_0000_0000_0000

namespace Address

/-- Index into the page table at `level`, 0 for the root and 3 for the last. -/
def tableIndex (va : VirtAddr) (level : Nat) : Fin 512 :=
  ⟨va.toNat >>> (39 - 9 * level) % 512, Nat.mod_lt _ (by decide)⟩

/-- True in the half that the kernel's own tables translate. -/
def isKernel (va : VirtAddr) : Bool := kernelBase ≤ va.raw

end Address

/-! ## Linear windows -/

/-- A fixed distance between a physical address and where the kernel sees it. -/
structure LinearWindow where
  offset : Word
deriving DecidableEq, Repr

namespace LinearWindow

/-- The window set up at boot. -/
def kernel : LinearWindow := ⟨kernelBase⟩

/-- Where the window shows `pa`. -/
def toVirt (w : LinearWindow) (pa : PhysAddr) : VirtAddr := ⟨pa.raw + w.offset⟩

/-- The physical address the window shows at `va`. -/
def toPhys (w : LinearWindow) (va : VirtAddr) : PhysAddr := ⟨va.raw - w.offset⟩

@[simp] theorem toPhys_toVirt (w : LinearWindow) (pa : PhysAddr) : w.toPhys (w.toVirt pa) = pa := by
  simp only [toPhys, toVirt, BitVec.add_sub_cancel]

@[simp] theorem toVirt_toPhys (w : LinearWindow) (va : VirtAddr) : w.toVirt (w.toPhys va) = va := by
  simp only [toPhys, toVirt, BitVec.sub_add_cancel]

end LinearWindow

end TaskKernel
