/-
  TaskKernel.PageTable.KernelTables

  The kernel's own two gigabytes, mapped by blocks of 2 MiB: normal memory up to
  the peripherals, device memory from there on.
-/
import TaskKernel.Layout
import TaskKernel.PageTable.AddressSpace

namespace TaskKernel

/-- Bytes covered by one level-2 block. -/
def largeBlockSize : Nat := 0x20_0000

/-- Base of block `i` of the gigabyte at `base`. -/
def largeBlockAddr (base : Word) (i : Fin 512) : PhysAddr :=
  ⟨base + BitVec.ofNat 64 (largeBlockSize * i)⟩

/-- Block `i` of the first gigabyte. -/
def lowBlock (i : Fin 512) : Descriptor :=
  let base := largeBlockAddr 0 i
  .make base (if Layout.peripheralBase ≤ base.raw then .kernelDeviceBlock else .kernelNormalBlock)

/-- Block `i` of the second gigabyte, which holds the per-core peripherals. -/
def highBlock (i : Fin 512) : Descriptor :=
  .make (largeBlockAddr Layout.localPeripheralBase i) .kernelDeviceBlock

/-- Fills a table entry by entry. -/
def Ram.fillTable (ram : Ram) (table : PhysAddr) (entries : Fin 512 → Descriptor) : Ram :=
  ram.setFrame table.frameNumber (Vector.ofFn fun i => (entries i).raw)

/-- Writes the two level-2 tables, then the first two entries of the level-1 table
    at `upper` that lead to them. -/
def Ram.writeKernelTables (ram : Ram) (upper low high : PhysAddr) : Ram :=
  let ram := ram.fillTable low lowBlock
  let ram := ram.fillTable high highBlock
  let ram := ram.setEntry upper 0 (.make low .page)
  ram.setEntry upper 1 (.make high .page)

end TaskKernel
