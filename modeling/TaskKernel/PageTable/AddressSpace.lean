/-
  TaskKernel.PageTable.AddressSpace

  A task's user half: four levels of page tables held in physical memory.
  Tables are created when a page below them is first mapped and are never given
  back. Operations return what memory holds afterwards also when they fail, since
  pages mapped before the failure stay mapped.
-/
import TaskKernel.Memory.Frames
import TaskKernel.PageTable.Descriptor

namespace TaskKernel

/-! ## Tables in memory -/

namespace Ram

/-- Entry `slot` of the table at `table`. -/
def entry (ram : Ram) (table : PhysAddr) (slot : Fin 512) : Descriptor :=
  ⟨(ram.frame table.frameNumber)[slot]⟩

/-- Memory with one table entry replaced. -/
def setEntry (ram : Ram) (table : PhysAddr) (slot : Fin 512) (d : Descriptor) : Ram :=
  ram.setFrame table.frameNumber ((ram.frame table.frameNumber).set slot d.raw)

@[simp] theorem entry_setEntry_self (ram : Ram) (table : PhysAddr) (slot : Fin 512)
    (d : Descriptor) : (ram.setEntry table slot d).entry table slot = d := by
  simp [entry, setEntry]

theorem entry_setEntry_of_ne (ram : Ram) (table : PhysAddr) {slot slot' : Fin 512}
    (d : Descriptor) (h : slot' ≠ slot) :
    (ram.setEntry table slot d).entry table slot' = ram.entry table slot' := by
  have hs : (slot : Nat) ≠ slot' := fun e => h (Fin.ext e.symm)
  simp only [entry, setEntry, frame_setFrame_self]
  exact congrArg Descriptor.mk (Vector.getElem_set_ne _ _ hs)

theorem entry_setFrame_of_ne (ram : Ram) {table : PhysAddr} {n : Nat} (f : Frame)
    (slot : Fin 512) (h : table.frameNumber ≠ n) :
    (ram.setFrame n f).entry table slot = ram.entry table slot := by
  simp only [entry, frame_setFrame_of_ne _ _ h]

end Ram

/-! ## Errors -/

/-- Why a mapping request failed. -/
inductive MapError where
  /-- No frame was left for a table. -/
  | outOfMemory
  /-- The flags select a memory type that is not in use. -/
  | invalidAttributes
  /-- A block descriptor sits where a table was needed. -/
  | blockInPath (page : VirtAddr)
deriving DecidableEq, Repr

def MapError.code : MapError → String
  | outOfMemory => "OutOfMemory"
  | invalidAttributes => "InvalidAttributes"
  | blockInPath _ => "BlockInPath"

def MapError.message : MapError → String
  | outOfMemory => "out of memory for page table"
  | invalidAttributes => "invalid memory attributes"
  | blockInPath page => "block mapping in the way of " ++ hex page.toNat

instance : Reported MapError := ⟨MapError.code, MapError.message⟩

/-! ## Walks -/

/-- Slots on the way from the root table to the last-level table of `va`. -/
def Address.tablePath (va : VirtAddr) : List (Fin 512) :=
  [va.tableIndex 0, va.tableIndex 1, va.tableIndex 2]

/-- Slot of `va` in its last-level table. -/
def Address.leafSlot (va : VirtAddr) : Fin 512 := va.tableIndex 3

/-- Outcome of a walk that may create tables: where it led, how many tables it
    created, and the memory it leaves. -/
structure Walk (F : Type) where
  result : Except MapError PhysAddr
  created : Nat
  memory : Memory F

/-- Follows `path` from `table`, creating each table that is missing. An entry that
    is present but no table ends the walk; `page` is the page it was made for. -/
def reachTable {F : Type} [FrameSource F] (page : VirtAddr) (mem : Memory F) (table : PhysAddr) :
    List (Fin 512) → Walk F
  | [] => ⟨.ok table, 0, mem⟩
  | slot :: path =>
    let d := mem.ram.entry table slot
    if d.isAbsent then
      match mem.allocateTable with
      -- The entry stays absent, so a later request starts here again.
      | (none, mem) => ⟨.error .outOfMemory, 0, mem⟩
      | (some child, mem) =>
        let d := Descriptor.make child .intermediate
        let walk := reachTable page (mem.mapRam (·.setEntry table slot d)) d.address path
        { walk with created := walk.created + 1 }
    else if d.isTable then reachTable page mem d.address path
    else ⟨.error (.blockInPath page), 0, mem⟩

/-- The last-level table at the end of `path`, if every table on the way exists. -/
def findTable (ram : Ram) (table : PhysAddr) : List (Fin 512) → Option PhysAddr
  | [] => some table
  | slot :: path =>
    let d := ram.entry table slot
    if d.isTable then findTable ram d.address path else none

/-! ## Address spaces -/

/-- Root table of a task's user half, and how many tables belong to it. -/
structure AddressSpace where
  root : PhysAddr
  /-- Tables made for this space, the root included. -/
  tables : Nat
deriving DecidableEq, Repr

namespace AddressSpace

variable {F : Type} [FrameSource F]

/-- Allocates an empty root table. -/
def new (mem : Memory F) : Except MapError AddressSpace × Memory F :=
  match mem.allocateTable with
  | (none, mem) => (.error .outOfMemory, mem)
  | (some root, mem) => (.ok ⟨root, 1⟩, mem)

/-- Maps `count` pages from the page `va` on to the frames from `pa` on, in ascending
    order, up to the first page that cannot be mapped. -/
def mapPages (flags : Flags) (space : AddressSpace) (mem : Memory F) (va : VirtAddr)
    (pa : PhysAddr) : Nat → Except MapError Unit × AddressSpace × Memory F
  | 0 => (.ok (), space, mem)
  | count + 1 =>
    let walk := reachTable va mem space.root va.tablePath
    let space := { space with tables := space.tables + walk.created }
    match walk.result with
    | .error e => (.error e, space, walk.memory)
    | .ok table =>
      let leaf := Descriptor.make pa (flags ||| .page ||| .accessed)
      mapPages flags space (walk.memory.mapRam (·.setEntry table va.leafSlot leaf))
        (va.plus pageSize) (pa.plus pageSize) count

def pagesTouched (va : VirtAddr) (size : Nat) : Nat :=
  (size + va.pageOffset + (pageSize - 1)) / pageSize

/-- Maps every page that the `size` bytes from `va` on touch to the frames from `pa`
    on. A page that was mapped before is mapped anew. -/
def map (space : AddressSpace) (mem : Memory F) (va : VirtAddr) (pa : PhysAddr) (size : Nat)
    (flags : Flags) : Except MapError Unit × AddressSpace × Memory F :=
  if flags.memoryType.isNone then (.error .invalidAttributes, space, mem)
  else if size = 0 then (.ok (), space, mem)
  else mapPages flags space mem va.pageDown pa.pageDown (pagesTouched va size)

/-- The last-level descriptor of `va`, if there is one. -/
def leaf (space : AddressSpace) (ram : Ram) (va : VirtAddr) : Option Descriptor :=
  match findTable ram space.root va.tablePath with
  | none => none
  | some table =>
    let d := ram.entry table va.leafSlot
    if d.isAbsent then none else some d

/-- Where `va` leads, if its page is mapped. -/
def translate (space : AddressSpace) (ram : Ram) (va : VirtAddr) : Option PhysAddr :=
  match space.leaf ram va with
  | none => none
  | some d => if d.isValid then some (d.address.plus va.pageOffset) else none

end AddressSpace

end TaskKernel
