/-
  TaskKernel.Proofs.PageTable.Walks

  Single descriptors, the split of an address into table slots, and walks through
  tables that do not change. Up to 2 ^ 48 the four slots of an address tell its page,
  which is why a space needs no more than four levels.
-/
import TaskKernel.PageTable.AddressSpace
import Mathlib.Algebra.Ring.Nat

namespace TaskKernel

/-! ## Descriptors -/

/-- A mask of `width` bits from bit 12 on keeps that many bits of the frame number. -/
theorem and_frameMask (n width : Nat) :
    n &&& ((2 ^ width - 1) <<< 12) = n % 2 ^ (12 + width) / 4096 * 4096 := by
  have hpage : 4096 = 2 ^ 12 := by decide
  rw [hpage]
  -- Both sides have the bits of `n` from 12 on, `width` of them, and no others.
  apply Nat.eq_of_testBit_eq
  intro i
  rw [Nat.testBit_and, Nat.testBit_shiftLeft, Nat.testBit_two_pow_sub_one, Nat.testBit_mul_two_pow,
    Nat.testBit_div_two_pow, Nat.testBit_mod_two_pow]
  by_cases hlow : 12 ≤ i
  · have hbit : i - 12 + 12 = i := by omega
    have hhigh : decide (i - 12 < width) = decide (i < 12 + width) := by
      rw [decide_eq_decide]
      omega
    rw [hbit, hhigh, Bool.and_comm]
    simp [hlow]
  · simp [hlow]

/-- The address field of a descriptor holds bits 12 to 47. -/
theorem toNat_and_addressMask (w : Word) :
    (w &&& descriptorAddressMask).toNat = w.toNat % 2 ^ 48 / 4096 * 4096 := by
  have hmask : descriptorAddressMask.toNat = (2 ^ 36 - 1) <<< 12 := by decide
  rw [BitVec.toNat_and, hmask, and_frameMask]

/-- Bits that are set stay set when more are. -/
theorem or_and_of_and_eq {a b mask : Word} (h : b &&& mask = mask) : (a ||| b) &&& mask = mask := by
  apply BitVec.eq_of_getLsbD_eq
  intro i hi
  have hbit : (b &&& mask).getLsbD i = mask.getLsbD i := by rw [h]
  rw [BitVec.getLsbD_and] at hbit
  rw [BitVec.getLsbD_and, BitVec.getLsbD_or]
  revert hbit
  cases a.getLsbD i <;> cases b.getLsbD i <;> cases mask.getLsbD i <;> simp

namespace Descriptor

theorem isAbsent_iff (d : Descriptor) : d.isAbsent = true ↔ d = absent := by
  cases d
  simp [isAbsent, absent]

/-- A descriptor in use as a table or a page is there. -/
theorem not_isAbsent_of_isTable {d : Descriptor} (h : d.isTable = true) : d.isAbsent = false := by
  rw [← Bool.not_eq_true, isAbsent_iff]
  rintro rfl
  revert h
  decide

theorem isTable_make {pa : PhysAddr} {flags : Flags}
    (h : flags.bits &&& Flags.page.bits = Flags.page.bits) : (make pa flags).isTable = true := by
  have hpage : (Flags.valid ||| Flags.table).bits = Flags.page.bits := by decide
  rw [isTable, hpage, beq_iff_eq]
  exact or_and_of_and_eq h

theorem isValid_of_isTable {d : Descriptor} (h : d.isTable = true) : d.isValid = true := by
  rw [isTable, beq_iff_eq] at h
  rw [isValid, bne_iff_ne]
  intro hzero
  have hvalid : (Flags.valid ||| Flags.table).bits &&& Flags.valid.bits = Flags.valid.bits := by decide
  rw [← h, BitVec.and_assoc, BitVec.and_comm _ Flags.valid.bits, ← BitVec.and_assoc, hzero] at hvalid
  revert hvalid
  decide

theorem raw_address_make {pa : PhysAddr} {flags : Flags}
    (h : flags.bits &&& descriptorAddressMask = 0) :
    (make pa flags).address.raw = pa.raw &&& descriptorAddressMask := by
  show ((pa.raw &&& descriptorAddressMask) ||| flags.bits) &&& descriptorAddressMask = _
  rw [BitVec.and_or_distrib_right, h, BitVec.and_assoc, BitVec.and_self]
  exact BitVec.or_zero

theorem flags_make {pa : PhysAddr} {flags : Flags} (h : flags.bits &&& descriptorAddressMask = 0) :
    (make pa flags).flags = flags := by
  apply congrArg Flags.mk
  show ((pa.raw &&& descriptorAddressMask) ||| flags.bits) &&& ~~~descriptorAddressMask = flags.bits
  apply BitVec.eq_of_getLsbD_eq
  intro i hi
  have hbit : (flags.bits &&& descriptorAddressMask).getLsbD i = false := by
    rw [h]
    exact BitVec.getLsbD_zero
  rw [BitVec.getLsbD_and] at hbit
  simp only [BitVec.getLsbD_or, BitVec.getLsbD_and, BitVec.getLsbD_not, hi, decide_true,
    Bool.true_and]
  revert hbit
  cases flags.bits.getLsbD i <;> cases descriptorAddressMask.getLsbD i <;> simp

/-- A descriptor made for a frame below 2 ^ 48 leads back to it. -/
theorem address_make_intermediate {pa : PhysAddr} (haligned : pa.pageOffset = 0)
    (hbelow : pa.toNat < 2 ^ 48) : (make pa .intermediate).address = pa := by
  have hraw : (make pa .intermediate).address.raw = pa.raw := by
    rw [raw_address_make (by decide)]
    apply BitVec.eq_of_toNat_eq
    rw [toNat_and_addressMask]
    rw [Address.pageOffset_eq_mod] at haligned
    unfold Address.toNat at haligned hbelow
    omega
  exact congrArg Address.mk hraw

end Descriptor

/-! ## Addresses -/

namespace Address

theorem toNat_pageDown {kind : AddressKind} (a : Address kind) :
    a.pageDown.toNat = a.toNat / 4096 * 4096 := by
  have hmask : (~~~(4095#64)).toNat = (2 ^ 52 - 1) <<< 12 := by decide
  have hlt : a.toNat < 2 ^ (12 + 52) := a.raw.isLt
  show (a.raw &&& ~~~(4095#64)).toNat = _
  rw [BitVec.toNat_and, hmask, and_frameMask]
  show a.toNat % 2 ^ (12 + 52) / 4096 * 4096 = _
  rw [Nat.mod_eq_of_lt hlt]

theorem frameNumber_pageDown {kind : AddressKind} (a : Address kind) :
    a.pageDown.frameNumber = a.frameNumber := by
  rw [frameNumber, toNat_pageDown, frameNumber, Nat.mul_div_cancel _ (by decide)]

theorem exists_frameNumber {n : Nat} (h : n * 4096 < 2 ^ 64) :
    ∃ va : VirtAddr, va.frameNumber = n := by
  refine ⟨⟨BitVec.ofNat 64 (n * 4096)⟩, ?_⟩
  show (BitVec.ofNat 64 (n * 4096)).toNat / 4096 = n
  rw [BitVec.toNat_ofNat, Nat.mod_eq_of_lt h, Nat.mul_div_cancel _ (by decide)]

/-- Addresses below 2 ^ 48 with the same slots at all four levels lie in the same page. -/
theorem frameNumber_eq_of_slots {va va' : VirtAddr} (h : va.toNat < 2 ^ 48)
    (h' : va'.toNat < 2 ^ 48) (hpath : va.tablePath = va'.tablePath)
    (hslot : va.leafSlot = va'.leafSlot) : va.frameNumber = va'.frameNumber := by
  simp only [tablePath, List.cons.injEq, and_true] at hpath
  obtain ⟨h0, h1, h2⟩ := hpath
  have h0 := congrArg Fin.val h0
  have h1 := congrArg Fin.val h1
  have h2 := congrArg Fin.val h2
  have h3 := congrArg Fin.val hslot
  -- The slots are the digits of the page number to base 512.
  simp only [leafSlot, tableIndex, Nat.shiftRight_eq_div_pow] at h0 h1 h2 h3
  unfold frameNumber
  omega

theorem slots_eq_of_frameNumber {va va' : VirtAddr} (h : va.frameNumber = va'.frameNumber) :
    va.tablePath = va'.tablePath ∧ va.leafSlot = va'.leafSlot := by
  -- Every slot is cut out of the bits above the page offset.
  have hindex (level : Nat) (hlevel : level ≤ 3) : va.tableIndex level = va'.tableIndex level := by
    have hshift : 39 - 9 * level = 12 + (27 - 9 * level) := by omega
    have hdiv : va.toNat / 2 ^ 12 = va'.toNat / 2 ^ 12 := h
    apply Fin.ext
    show va.toNat >>> (39 - 9 * level) % 512 = va'.toNat >>> (39 - 9 * level) % 512
    rw [hshift, Nat.shiftRight_eq_div_pow, Nat.shiftRight_eq_div_pow, Nat.pow_add,
      ← Nat.div_div_eq_div_mul, ← Nat.div_div_eq_div_mul, hdiv]
  rw [tablePath, tablePath, leafSlot, leafSlot, hindex 0 (by omega), hindex 1 (by omega),
    hindex 2 (by omega), hindex 3 (by omega)]
  exact ⟨rfl, rfl⟩

end Address

/-! ## Walks -/

theorem findTable_append (ram : Ram) (table : PhysAddr) (path rest : List (Fin 512)) :
    findTable ram table (path ++ rest) =
      (findTable ram table path).bind fun table => findTable ram table rest := by
  induction path generalizing table with
  | nil => rfl
  | cons slot path ih =>
    rw [List.cons_append, findTable, findTable]
    split
    · exact ih _
    · rfl

/-- One more step of a walk. -/
theorem findTable_snoc_iff {ram : Ram} {root table : PhysAddr} {path : List (Fin 512)}
    {slot : Fin 512} :
    findTable ram root (path ++ [slot]) = some table ↔
      ∃ parent, findTable ram root path = some parent ∧
        (ram.entry parent slot).isTable = true ∧ (ram.entry parent slot).address = table := by
  rw [findTable_append]
  constructor
  · intro h
    obtain ⟨parent, hparent, hstep⟩ := Option.bind_eq_some_iff.1 h
    rw [findTable] at hstep
    split at hstep
    · next htable =>
      rw [findTable] at hstep
      exact ⟨parent, hparent, htable, Option.some.inj hstep⟩
    · cases hstep
  · rintro ⟨parent, hparent, htable, haddress⟩
    rw [hparent, Option.bind_some, findTable]
    rw [if_pos htable, findTable, haddress]

/-- The descriptor in slot `slot` of the table at the end of `path`, if it is there. -/
def leafAt (ram : Ram) (root : PhysAddr) (path : List (Fin 512)) (slot : Fin 512) :
    Option Descriptor :=
  (findTable ram root path).bind fun table =>
    if (ram.entry table slot).isAbsent then none else some (ram.entry table slot)

theorem leafAt_of_findTable {ram : Ram} {root table : PhysAddr} {path : List (Fin 512)}
    (h : findTable ram root path = some table) (slot : Fin 512) :
    leafAt ram root path slot =
      if (ram.entry table slot).isAbsent then none else some (ram.entry table slot) := by
  rw [leafAt, h, Option.bind_some]

theorem AddressSpace.leaf_eq_leafAt (space : AddressSpace) (ram : Ram) (va : VirtAddr) :
    space.leaf ram va = leafAt ram space.root va.tablePath va.leafSlot := by
  rw [leaf, leafAt]
  cases findTable ram space.root va.tablePath <;> rfl

/-- A table that was just cleared has no entries. -/
theorem entry_clearFrame (ram : Ram) (table : PhysAddr) (slot : Fin 512) :
    (ram.clearFrame table).entry table slot = .absent := by
  simp only [Ram.entry, Ram.clearFrame, Ram.frame_setFrame_self, Frame.zero, Descriptor.absent]
  exact congrArg Descriptor.mk (Vector.getElem_replicate _)

end TaskKernel
