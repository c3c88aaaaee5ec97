/-
  TaskKernel.Proofs.PageTable.Copies

  Ranges of user memory and where their pages lead. A copy within one page reads or writes
  the frame behind it; a change that spares the tables of a space leaves every address
  leading where it led.
-/
import TaskKernel.PageTable.UserAccess
import TaskKernel.Proofs.Memory.ImageCopy
import TaskKernel.Proofs.PageTable.Forest

namespace TaskKernel

/-! ## Pages -/

/-- The bytes up to the end of a page lie in that page. -/
theorem Address.frameNumber_plus {va : VirtAddr} {i : Nat} (h : va.pageOffset + i < pageSize) :
    (va.plus i).frameNumber = va.frameNumber := by
  rw [pageOffset_eq_mod, pageSize] at h
  have hva : va.toNat < 2 ^ 64 := va.raw.isLt
  rw [frameNumber, toNat_plus_of_lt (by omega), frameNumber]
  omega

/-- Bytes that end within a page change its frame and no other. -/
theorem Ram.frame_writeBytes_of_ne (ram : Ram) {pa : PhysAddr} {bytes : List Byte} {n : Nat}
    (hbelow : pa.toNat < 2 ^ 48) (hfit : pa.pageOffset + bytes.length ≤ pageSize)
    (hne : n ≠ pa.frameNumber) : (ram.writeBytes pa bytes).frame n = ram.frame n := by
  rw [Address.pageOffset_eq_mod, pageSize] at hfit
  rw [Address.frameNumber] at hne
  refine ram.frame_writeBytes (by omega) ?_
  rw [Address.frameNumber, pageSize]
  omega

namespace AddressSpace

variable {space : AddressSpace} {ram ram' : Ram} {va : VirtAddr} {pa : PhysAddr}

theorem translate_of_leaf {d : Descriptor} (hleaf : space.leaf ram va = some d)
    (hvalid : d.isValid = true) : space.translate ram va = some (d.address.plus va.pageOffset) := by
  simp only [translate, hleaf, hvalid, if_true]

/-- An address goes to the frame that its leaf leads to, as far in as it was into its page. -/
theorem place_of_translate (h : space.translate ram va = some pa) :
    ∃ d, space.leaf ram va = some d ∧ pa.frameNumber = d.address.frameNumber ∧
      pa.pageOffset = va.pageOffset ∧ pa.toNat < 2 ^ 48 := by
  rw [translate] at h
  split at h
  · cases h
  · next d hleaf =>
    split at h
    · obtain rfl := Option.some.inj h
      have haddress : d.address.toNat = d.raw.toNat % 2 ^ 48 / 4096 * 4096 :=
        toNat_and_addressMask d.raw
      have hoffset := va.pageOffset_lt
      rw [pageSize] at hoffset
      have htarget : (d.address.plus va.pageOffset).toNat = d.address.toNat + va.pageOffset :=
        Address.toNat_plus_of_lt (by omega)
      have hplace := Address.pageOffset_eq_mod (d.address.plus va.pageOffset)
      refine ⟨d, hleaf, ?_⟩
      rw [Address.frameNumber, Address.frameNumber]
      omega
    · cases h

/-! ## Ranges -/

/-- All pages of the range are mapped. -/
def Covers (space : AddressSpace) (ram : Ram) (va : VirtAddr) (len : Nat) : Prop :=
  ∀ i < len, (space.translate ram (va.plus i)).isSome = true

/-- The frames that the pages of the range lead to. -/
def framesUnder (space : AddressSpace) (ram : Ram) (va : VirtAddr) (len : Nat) : Set Nat :=
  {n | ∃ i < len, ∃ pa, space.translate ram (va.plus i) = some pa ∧ pa.frameNumber = n}

theorem framesUnder_rest_subset {n len : Nat} :
    space.framesUnder ram (va.plus n) (len - n) ⊆ space.framesUnder ram va len := by
  rintro frame ⟨i, hi, pa, hpa, hframe⟩
  rw [Address.plus_plus] at hpa
  exact ⟨n + i, by omega, pa, hpa, hframe⟩

/-! ## Reading -/

/-- Within a page the bytes come from where the page leads. -/
theorem copyFrom_page {buffer : List Byte} (hsome : space.translate ram va = some pa)
    (hin : inUserSpace va buffer.length = true)
    (hfit : va.pageOffset + buffer.length ≤ pageSize) :
    space.copyFrom ram va buffer = (.ok (), ram.readBytes pa buffer.length) := by
  have hpiece : pieceLength va buffer.length = buffer.length := by
    rw [pieceLength]
    omega
  have hread : space.readPieces ram va buffer.length =
      (.ok (), ram.readBytes pa buffer.length) := by
    rw [readPieces]
    split
    · rw [hsome]
      simp only [hpiece, Nat.sub_self]
      rw [readPieces, dif_neg (Nat.lt_irrefl 0), List.append_nil]
    · next hzero =>
      rw [show buffer.length = 0 by omega]
      rfl
  rw [copyFrom, if_pos hin, hread]
  simp [Ram.readBytes]

/-! ## Writing -/

/-- No page leads to a table of the same space. -/
def Clear (space : AddressSpace) (ram : Ram) : Prop :=
  ∀ va pa, space.translate ram va = some pa → ∀ path table, path.length ≤ 3 →
    findTable ram space.root path = some table → table.frameNumber ≠ pa.frameNumber

/-- The tables of the space hold the same in both memories. -/
def SameTables (space : AddressSpace) (ram ram' : Ram) : Prop :=
  ∀ path table, path.length ≤ 3 → findTable ram space.root path = some table →
    ram'.frame table.frameNumber = ram.frame table.frameNumber

theorem translate_of_sameTables (h : space.SameTables ram ram') (va : VirtAddr) :
    space.translate ram' va = space.translate ram va := by
  have hentry {path table} (hdepth : path.length ≤ 3)
      (hfound : findTable ram space.root path = some table) (slot : Fin 512) :
      ram'.entry table slot = ram.entry table slot := by
    rw [Ram.entry, Ram.entry, h path table hdepth hfound]
  have hlength : va.tablePath.length ≤ 3 := Nat.le_refl 3
  have hleaf : space.leaf ram' va = space.leaf ram va := by
    rw [leaf_eq_leafAt, leaf_eq_leafAt]
    refine leafAt_congr (findTable_congr ?_ (Set.mem_singleton space.root) hlength)
      fun table hfound => hentry hlength hfound va.leafSlot
    rintro _ path table hreached - slot
    obtain rfl := hreached.root_mem
    exact hentry hreached.depth hreached.found slot
  rw [translate, translate, hleaf]

/-- Within a page the bytes go to where the page leads. -/
theorem copyTo_page {bytes : List Byte} (hsome : space.translate ram va = some pa)
    (hin : inUserSpace va bytes.length = true) (hfit : va.pageOffset + bytes.length ≤ pageSize) :
    space.copyTo ram va bytes = (.ok (), ram.writeBytes pa bytes) := by
  have hpiece : pieceLength va bytes.length = bytes.length := by
    rw [pieceLength]
    omega
  rw [copyTo, if_pos hin, writePieces]
  split
  · rw [hsome]
    simp only [hpiece, List.take_length, List.drop_length]
    rw [writePieces]
    rfl
  · next hzero =>
    rw [List.eq_nil_of_length_eq_zero (show bytes.length = 0 by omega)]
    rfl

end AddressSpace

end TaskKernel
