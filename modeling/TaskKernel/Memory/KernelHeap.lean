/-
  TaskKernel.Memory.KernelHeap

  The kernel heap: one buddy allocator serves both byte layouts and page frames.
  Before it is started it has no memory. Blocks are named by kernel addresses,
  frames by the physical addresses behind them.
-/
import TaskKernel.Memory.Buddy
import TaskKernel.Memory.Frames

namespace TaskKernel

/-- Size and alignment of a request for bytes. -/
structure ByteLayout where
  size : Nat
  align : Nat
deriving DecidableEq, Repr

namespace ByteLayout

/-- An alignment is a power of two, and the size rounded up to it fits a signed word. -/
def isValid (layout : ByteLayout) : Bool :=
  (List.range 64).any (fun k => layout.align == 1 <<< k) &&
    layout.size + (layout.align - 1) < 0x8000_0000_0000_0000

/-- The block size that satisfies both: blocks are aligned to their own size. -/
def blockRequest (layout : ByteLayout) : Nat := max layout.size layout.align

end ByteLayout

/-- The buddy allocator of the kernel and whether it was started. -/
structure KernelHeap where
  buddy : BuddyAllocator
  started : Bool
deriving DecidableEq, Repr

namespace KernelHeap

def unstarted : KernelHeap := ⟨BuddyAllocator.empty, false⟩

/-- Registers the reserved ranges, as far as there is room for them, and starts
    the heap on `[base, base + size)`. -/
def start (heap : KernelHeap) (base size : Nat) (reserved : List (Nat × Nat)) : KernelHeap :=
  let buddy := reserved.foldl (fun buddy r => (buddy.reserve r.1 r.2).2) heap.buddy
  ⟨buddy.init base size, true⟩

/-- Takes a block for a byte layout. -/
def allocateBytes (heap : KernelHeap) (layout : ByteLayout) : Option Nat × KernelHeap :=
  if heap.started then
    let (addr, buddy) := heap.buddy.allocate layout.blockRequest
    (addr, { heap with buddy })
  else (none, heap)

/-- Takes back a block for a byte layout; the null block is ignored. -/
def releaseBytes (heap : KernelHeap) (addr : Option Nat) (layout : ByteLayout) : KernelHeap :=
  match addr with
  | some addr =>
    if heap.started then { heap with buddy := heap.buddy.deallocate addr layout.blockRequest }
    else heap
  | none => heap

/-- Takes whole pages, named by their kernel address. -/
def allocatePages (heap : KernelHeap) (size : Nat) : Option Nat × KernelHeap :=
  if heap.started then
    let (addr, buddy) := heap.buddy.allocate (pageRoundUp size)
    (addr, { heap with buddy })
  else (none, heap)

def releasePages (heap : KernelHeap) (addr size : Nat) : KernelHeap :=
  { heap with buddy := heap.buddy.deallocate addr (pageRoundUp size) }

/-! ## The heap as a source of frames -/

/-- Takes whole pages, named by their physical address. -/
def allocateFrames (heap : KernelHeap) (size : Nat) : Option PhysAddr × KernelHeap :=
  let (addr, heap) := heap.allocatePages size
  (addr.map fun a => LinearWindow.kernel.toPhys ⟨BitVec.ofNat 64 a⟩, heap)

/-- Takes back whole pages; a range that the kernel sees at address zero is ignored. -/
def releaseFrames (heap : KernelHeap) (pa : PhysAddr) (size : Nat) : KernelHeap :=
  let va := LinearWindow.kernel.toVirt pa
  if va.isNull then heap else heap.releasePages va.toNat size

instance : FrameSource KernelHeap where
  allocate := allocateFrames
  release := releaseFrames

/-! ## The heap region of the machine -/

/-- First address and end of the region given to the heap. -/
structure Region where
  base : Nat
  stop : Nat
deriving DecidableEq, Repr

/-- A hosted kernel has no memory of its own: its heap region is empty. -/
def hostedRegion : Region := ⟨0, 0⟩

/-- Starts the heap on a region, keeping physical ranges away from it. At most
    `maxReserved` ranges are considered. -/
def startOn (heap : KernelHeap) (region : Region) (reserved : List (PhysAddr × PhysAddr)) :
    KernelHeap :=
  let ranges := (reserved.take maxReserved).map fun r =>
    ((LinearWindow.kernel.toVirt r.1).toNat, (LinearWindow.kernel.toVirt r.2).toNat)
  heap.start region.base (region.stop - region.base) ranges

end KernelHeap

/-! ## The heap behind its lock -/

/-- The heap as its users reach it: a request takes the heap's lock and lets go of it when it
    was answered. -/
structure LockedHeap where
  heap : KernelHeap
  /-- How often the lock was taken. -/
  turns : Nat
deriving DecidableEq, Repr

namespace LockedHeap

def allocate (locked : LockedHeap) (size : Nat) : Option PhysAddr × LockedHeap :=
  let (pa, heap) := locked.heap.allocateFrames size
  (pa, ⟨heap, locked.turns + 1⟩)

/-- A range that the kernel sees at address zero is dropped before the lock is asked for. -/
def release (locked : LockedHeap) (pa : PhysAddr) (size : Nat) : LockedHeap :=
  if (LinearWindow.kernel.toVirt pa).isNull then locked
  else ⟨locked.heap.releaseFrames pa size, locked.turns + 1⟩

instance : FrameSource LockedHeap where
  allocate := allocate
  release := release

end LockedHeap

end TaskKernel
