/-
  TaskKernel.Memory.Frames

  Where page frames come from. Everything that takes or returns frames is
  written for an arbitrary `FrameSource`; `Memory` pairs a source with the
  contents of RAM, since a new page table needs both.
-/
import TaskKernel.Memory.Ram

namespace TaskKernel

/-! ## Whole pages -/

/-- A size rounded up to whole pages; an empty request takes one page. -/
def pageRoundUp (size : Nat) : Nat := (max size 1 + (pageSize - 1)) / pageSize * pageSize

def pageCount (size : Nat) : Nat := pageRoundUp size / pageSize

theorem le_pageRoundUp (size : Nat) : size ≤ pageRoundUp size := by
  simp only [pageRoundUp, pageSize]; omega

theorem pageCount_mul (size : Nat) : pageCount size * pageSize = pageRoundUp size := by
  simp only [pageCount, pageRoundUp, pageSize]; omega

theorem pageCount_pos (size : Nat) : 0 < pageCount size := by
  simp only [pageCount, pageRoundUp, pageSize]; omega

/-! ## Sources of frames -/

/-- A source of page-aligned physical memory. -/
class FrameSource (F : Type) where
  /-- Takes at least the given number of bytes, page aligned; nothing when exhausted. -/
  allocate : F → Nat → Option PhysAddr × F
  /-- Takes back a range from `allocate`, with the size it was asked for. -/
  release : F → PhysAddr → Nat → F

/-- Physical memory: what it holds and who hands it out. -/
structure Memory (F : Type) where
  ram : Ram
  frames : F

namespace Memory

variable {F : Type}

/-- Applies a change of contents. -/
def mapRam (mem : Memory F) (f : Ram → Ram) : Memory F := { mem with ram := f mem.ram }

@[simp] theorem mapRam_frames (mem : Memory F) (f : Ram → Ram) :
    (mem.mapRam f).frames = mem.frames := rfl

@[simp] theorem mapRam_ram (mem : Memory F) (f : Ram → Ram) :
    (mem.mapRam f).ram = f mem.ram := rfl

variable [FrameSource F]

/-- Takes `size` bytes from the frame source; their contents are left as they were. -/
def allocate (mem : Memory F) (size : Nat) : Option PhysAddr × Memory F :=
  let (pa, frames) := FrameSource.allocate mem.frames size
  (pa, { mem with frames })

/-- Takes one frame and clears it. -/
def allocateTable (mem : Memory F) : Option PhysAddr × Memory F :=
  match mem.allocate pageSize with
  | (none, mem) => (none, mem)
  | (some table, mem) => (some table, mem.mapRam (·.clearFrame table))

def release (mem : Memory F) (pa : PhysAddr) (size : Nat) : Memory F :=
  { mem with frames := FrameSource.release mem.frames pa size }

@[simp] theorem release_ram (mem : Memory F) (pa : PhysAddr) (size : Nat) :
    (mem.release pa size).ram = mem.ram := rfl

@[simp] theorem allocate_ram (mem : Memory F) (size : Nat) :
    (mem.allocate size).2.ram = mem.ram := rfl

end Memory

end TaskKernel
