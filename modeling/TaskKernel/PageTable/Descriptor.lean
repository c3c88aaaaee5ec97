/-
  TaskKernel.PageTable.Descriptor

  Page table descriptors, their attribute bits, and the memory types that
  attributes select. Bits 12 to 47 of a descriptor are the address of a frame and
  the others are flags; a descriptor of zero is absent.
-/
import TaskKernel.Address

namespace TaskKernel

/-! ## Memory types -/

/-- The two kinds of memory the processor is set up for. -/
inductive MemoryType where
  | device
  | normalNonCacheable
deriving DecidableEq, Repr

namespace MemoryType

/-- The attribute slot of this memory type. -/
def attributeIndex : MemoryType → Nat
  | device => 0
  | normalNonCacheable => 1

/-- What the attribute slot holds. -/
def attributeEncoding : MemoryType → Word
  | device => 0x00
  | normalNonCacheable => 0x44

end MemoryType

/-- Value of the memory attribute register: one byte for each slot. -/
def attributeRegister : Word :=
  (MemoryType.device.attributeEncoding <<< (8 * MemoryType.device.attributeIndex)) |||
    (MemoryType.normalNonCacheable.attributeEncoding <<<
      (8 * MemoryType.normalNonCacheable.attributeIndex))

/-- Value of the page table control register: both halves have 48-bit addresses
    and 4 KiB pages. -/
def pageTableControl : Word :=
  BitVec.ofNat 64 (64 - 48) ||| (BitVec.ofNat 64 (64 - 48) <<< 16) ||| (0b10#64 <<< 30)

/-! ## Flags -/

/-- Attribute bits of a descriptor. -/
structure Flags where
  bits : Word
deriving DecidableEq, Repr

namespace Flags

instance : OrOp Flags where
  or a b := ⟨a.bits ||| b.bits⟩

instance : AndOp Flags where
  and a b := ⟨a.bits &&& b.bits⟩

instance : Complement Flags where
  complement a := ⟨~~~a.bits⟩

/-- The descriptor is in use. -/
def valid : Flags := ⟨1#64 <<< 0⟩

/-- A table at levels 0 to 2, a page at level 3; without it, a block. -/
def table : Flags := ⟨1#64 <<< 1⟩

/-- Descriptor type of tables and pages. -/
def page : Flags := ⟨0b11⟩

def block : Flags := ⟨0b01⟩

def attrDevice : Flags := ⟨0#64 <<< 2⟩

def attrNormal : Flags := ⟨1#64 <<< 2⟩

/-- The bits that select a memory type. -/
def attrMask : Flags := ⟨0b111#64 <<< 2⟩

/-- User mode may access the page. -/
def user : Flags := ⟨1#64 <<< 6⟩

/-- The page cannot be written. -/
def readOnly : Flags := ⟨1#64 <<< 7⟩

/-- The access flag; without it the first access faults. -/
def accessed : Flags := ⟨1#64 <<< 10⟩

/-- The kernel does not execute the page. -/
def privilegedNoExecute : Flags := ⟨1#64 <<< 53⟩

/-- User mode does not execute the page. -/
def userNoExecute : Flags := ⟨1#64 <<< 54⟩

/-! ### Combinations -/

/-- Flags of every table descriptor that the mapper writes. -/
def intermediate : Flags := page ||| accessed ||| user ||| readOnly

/-- Program image and user stack: read and written by user mode. -/
def userNormal : Flags := page ||| accessed ||| attrNormal ||| user

/-- Kernel data inside a task's table: no user access, never executed. -/
def kernelData : Flags :=
  page ||| accessed ||| attrNormal ||| privilegedNoExecute ||| userNoExecute

/-- The signal return page: user mode may read and execute it. -/
def userCodeReadOnly : Flags := userNormal ||| readOnly

/-- A kernel block of normal memory. -/
def kernelNormalBlock : Flags := block ||| accessed ||| attrNormal

/-- A kernel block of device memory. -/
def kernelDeviceBlock : Flags := block ||| accessed ||| attrDevice ||| user

/-! ### Queries -/

/-- True when every bit of `other` is set. -/
def contains (flags other : Flags) : Bool := flags.bits &&& other.bits == other.bits

/-- The memory type the flags select, if it is one of the two in use. -/
def memoryType (flags : Flags) : Option MemoryType :=
  match ((flags.bits &&& attrMask.bits) >>> 2).toNat with
  | 0 => some .device
  | 1 => some .normalNonCacheable
  | _ => none

end Flags

/-! ## Descriptors -/

/-- The bits of a descriptor that hold an address. -/
def descriptorAddressMask : Word := 0x0000_ffff_ffff_f000

/-- A 64-bit page table descriptor. -/
structure Descriptor where
  raw : Word
deriving DecidableEq, Repr

namespace Descriptor

def absent : Descriptor := ⟨0⟩

/-- The descriptor that points to the frame of `pa` with `flags`. -/
def make (pa : PhysAddr) (flags : Flags) : Descriptor :=
  ⟨(pa.raw &&& descriptorAddressMask) ||| flags.bits⟩

def isAbsent (d : Descriptor) : Bool := d.raw == 0

/-- True when the hardware takes the descriptor to be in use. -/
def isValid (d : Descriptor) : Bool := d.raw &&& Flags.valid.bits != 0

/-- True of a table at levels 0 to 2 and of a page at level 3. -/
def isTable (d : Descriptor) : Bool :=
  d.raw &&& (Flags.valid ||| Flags.table).bits == (Flags.valid ||| Flags.table).bits

/-- The frame the descriptor points to. -/
def address (d : Descriptor) : PhysAddr := ⟨d.raw &&& descriptorAddressMask⟩

/-- The bits outside the address. -/
def flags (d : Descriptor) : Flags := ⟨d.raw &&& ~~~descriptorAddressMask⟩

/-- A descriptor is its address and its flags. -/
theorem raw_eq_address_or_flags (d : Descriptor) : d.raw = d.address.raw ||| d.flags.bits := by
  apply BitVec.eq_of_getLsbD_eq
  intro i hi
  simp only [address, flags, BitVec.getLsbD_or, BitVec.getLsbD_and, BitVec.getLsbD_not, hi,
    decide_true, Bool.true_and]
  cases d.raw.getLsbD i <;> cases descriptorAddressMask.getLsbD i <;> rfl

end Descriptor

end TaskKernel
