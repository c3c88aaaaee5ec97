/-
  TaskKernel.Proofs.PageTable.WellFormed

  What the descriptors of an address space look like. Above the last level each one that is
  there is the link to a table of its own, so the tables form a tree; on the last level each
  is a page in use with one of the two memory types. No value of the flags that a call
  brings along breaks this, so a walk never meets a block.
-/
import TaskKernel.Proofs.PageTable.SpaceRuns

namespace TaskKernel

/-! ## Single descriptors -/

/-- The descriptor is the address of the table at `child` with the flags of a table. -/
structure Descriptor.LinksTo (d : Descriptor) (child : PhysAddr) : Prop where
  aligned : child.pageOffset = 0
  below : child.toNat < 2 ^ 48
  raw_eq : d.raw = child.raw ||| Flags.intermediate.bits

/-- The descriptor is a page in use, in memory of one of the two types. -/
structure Descriptor.IsPage (d : Descriptor) : Prop where
  inUse : d.flags.contains (.valid ||| .table ||| .accessed) = true
  memory : d.flags.memoryType = some .device ∨ d.flags.memoryType = some .normalNonCacheable

/-- What a descriptor may look like in a table that lies `depth` links below the root. -/
structure Descriptor.WellFormed (depth : Nat) (d : Descriptor) : Prop where
  link : depth < 3 → ∃ child, d.LinksTo child
  page : depth = 3 → d.IsPage

namespace Descriptor

/-- The address field of a descriptor holds a page below 2 ^ 48. -/
theorem address_aligned_below (d : Descriptor) :
    d.address.pageOffset = 0 ∧ d.address.toNat < 2 ^ 48 := by
  have haddress : d.address.toNat = d.raw.toNat % 2 ^ 48 / 4096 * 4096 :=
    toNat_and_addressMask d.raw
  rw [Address.pageOffset_eq_mod]
  omega

/-- A link leads where its address field says. -/
theorem LinksTo.address_eq {d : Descriptor} {child : PhysAddr} (h : d.LinksTo child) :
    d.address = child := by
  have hmake : (make child .intermediate).address = child :=
    address_make_intermediate h.aligned h.below
  have hmasked : child.raw &&& descriptorAddressMask = child.raw := by
    rw [← raw_address_make (by decide : Flags.intermediate.bits &&& descriptorAddressMask = 0),
      hmake]
  have hd : d = make child .intermediate := by
    apply congrArg Descriptor.mk
    rw [h.raw_eq, hmasked]
  rw [hd, hmake]

theorem linksTo_make {child : PhysAddr} (h : (make child .intermediate).address = child) :
    (make child .intermediate).LinksTo child := by
  have hfield := (make child .intermediate).address_aligned_below
  have hmasked : child.raw &&& descriptorAddressMask = child.raw := by
    rw [← raw_address_make (by decide : Flags.intermediate.bits &&& descriptorAddressMask = 0), h]
  rw [h] at hfield
  refine ⟨hfield.1, hfield.2, ?_⟩
  show (child.raw &&& descriptorAddressMask) ||| _ = _
  rw [hmasked]

/-- Bits outside the address field are flags. -/
theorem flags_and {d : Descriptor} {mask : Word}
    (h : ~~~descriptorAddressMask &&& mask = mask) : d.flags.bits &&& mask = d.raw &&& mask := by
  show (d.raw &&& ~~~descriptorAddressMask) &&& mask = _
  rw [BitVec.and_assoc, h]

/-- The memory type hangs on the attribute bits only. -/
theorem memoryType_congr {flags flags' : Flags}
    (h : flags.bits &&& Flags.attrMask.bits = flags'.bits &&& Flags.attrMask.bits) :
    flags.memoryType = flags'.memoryType := by
  rw [Flags.memoryType, Flags.memoryType, h]

/-- The memory type of a page is that of the call which mapped it. -/
theorem memoryType_page (pa : PhysAddr) (flags : Flags) :
    (make pa (flags ||| .page ||| .accessed)).flags.memoryType = flags.memoryType := by
  apply memoryType_congr
  rw [flags_and (by decide)]
  show ((pa.raw &&& descriptorAddressMask) |||
    (flags.bits ||| Flags.page.bits ||| Flags.accessed.bits)) &&& Flags.attrMask.bits = _
  have hfield : descriptorAddressMask &&& Flags.attrMask.bits = 0 := by decide
  have hpage : Flags.page.bits &&& Flags.attrMask.bits = 0 := by decide
  have haccessed : Flags.accessed.bits &&& Flags.attrMask.bits = 0 := by decide
  rw [BitVec.and_or_distrib_right, BitVec.and_or_distrib_right, BitVec.and_or_distrib_right,
    BitVec.and_assoc, hfield, hpage, haccessed]
  simp

/-- What a call writes for a page is a page in use, whatever other bits the flags have. -/
theorem isPage_make (pa : PhysAddr) {flags : Flags} (usable : flags.memoryType.isSome) :
    (make pa (flags ||| .page ||| .accessed)).IsPage := by
  constructor
  · rw [Flags.contains, beq_iff_eq, flags_and (by decide)]
    show ((pa.raw &&& descriptorAddressMask) |||
      (flags.bits ||| Flags.page.bits ||| Flags.accessed.bits)) &&& _ = _
    rw [BitVec.or_assoc flags.bits]
    exact or_and_of_and_eq (or_and_of_and_eq (by decide))
  · rw [memoryType_page]
    obtain ⟨kind, hkind⟩ := Option.isSome_iff_exists.1 usable
    rw [hkind]
    cases kind with
    | device => exact Or.inl rfl
    | normalNonCacheable => exact Or.inr rfl

theorem IsPage.isValid {d : Descriptor} (h : d.IsPage) : d.isValid = true := by
  apply isValid_of_isTable
  have hflags := h.inUse
  rw [Flags.contains, beq_iff_eq, flags_and (by decide)] at hflags
  have htable : (Flags.valid ||| Flags.table).bits =
      (Flags.valid ||| Flags.table ||| Flags.accessed).bits &&&
        (Flags.valid ||| Flags.table).bits := by
    decide
  rw [isTable, beq_iff_eq, htable, ← BitVec.and_assoc, hflags]

end Descriptor

/-! ## The tables of a space -/

/-- Every descriptor that is there in a table under `root` has the form of its level. -/
def WellFormedTables (ram : Ram) (root : PhysAddr) : Prop :=
  ∀ (path : List (Fin 512)) (table : PhysAddr), path.length ≤ 3 →
    findTable ram root path = some table → ∀ slot : Fin 512,
    (ram.entry table slot).isAbsent = false →
    (ram.entry table slot).WellFormed path.length

theorem wellFormedTables_of_empty {ram : Ram} {root : PhysAddr}
    (hempty : ∀ slot, ram.entry root slot = .absent) : WellFormedTables ram root := by
  intro path table _ hfound slot hpresent
  rw [(findTable_of_empty hempty hfound).2, hempty] at hpresent
  cases hpresent

/-- The form is a matter of the tables alone. -/
theorem WellFormedTables.congr {ram ram' : Ram} {root : PhysAddr} (h : WellFormedTables ram root)
    (hfind : ∀ path : List (Fin 512), path.length ≤ 3 →
      findTable ram' root path = findTable ram root path)
    (hentry : ∀ (path : List (Fin 512)) (table : PhysAddr), path.length ≤ 3 →
      findTable ram root path = some table →
      ∀ slot, ram'.entry table slot = ram.entry table slot) : WellFormedTables ram' root := by
  intro path table hdepth hfound slot hpresent
  rw [hfind path hdepth] at hfound
  rw [hentry path table hdepth hfound] at hpresent ⊢
  exact h path table hdepth hfound slot hpresent

/-- A leaf that is there is a page in use, so its address leads somewhere. -/
theorem WellFormedTables.isSome_translate {ram : Ram} {space : AddressSpace}
    (h : WellFormedTables ram space.root) (va : VirtAddr) :
    (space.translate ram va).isSome = (space.leaf ram va).isSome := by
  rw [AddressSpace.translate, AddressSpace.leaf]
  cases hfound : findTable ram space.root va.tablePath with
  | none => rfl
  | some table =>
    dsimp only
    cases hpresent : (ram.entry table va.leafSlot).isAbsent with
    | true => rfl
    | false =>
      have page := (h va.tablePath table (Nat.le_refl 3) hfound va.leafSlot hpresent).page rfl
      simp [page.isValid]

section

variable {F : Type} [FrameSource F] {L : FrameLedger F} {roots : Set PhysAddr}
  {root table child : PhysAddr} {flags : Flags} {mem mem₁ mem' : Memory F}
  {path : List (Fin 512)} {slot : Fin 512}

/-- A new table is empty, and the descriptor that leads to it is a link. -/
theorem WellFormedTables.linked (wf : WellFormedTables mem.ram root) (h : L.Carries mem roots)
    (hroot : root ∈ roots) (grant : TableGrant L mem mem₁ child)
    (found : findTable mem.ram root path = some table) (depth : path.length < 3)
    (vacant : (mem.ram.entry table slot).isAbsent = true) :
    WellFormedTables (mem₁.ram.setEntry table slot (.make child .intermediate)) root := by
  have hreached : Reached mem.ram roots root path table := ⟨hroot, depth.le, found⟩
  intro path' table' hdepth' hfound' slot' hpresent
  rcases (h.findTable_linked grant hroot found depth vacant hdepth').1 hfound' with
    hold | ⟨-, rfl⟩
  · have hreached' : Reached mem.ram roots root path' table' := ⟨hroot, hdepth', hold⟩
    by_cases hhere : table'.frameNumber = table.frameNumber ∧ slot' = slot
    · obtain ⟨hframe, rfl⟩ := hhere
      obtain ⟨-, rfl⟩ := h.forest.unique hreached' hreached hframe
      rw [Ram.entry_setEntry_here _ _ _ hframe]
      exact ⟨fun _ => ⟨child, Descriptor.linksTo_make grant.address⟩, fun h => by omega⟩
    · have hsame := h.forest.entry_clearFrame_of_free grant.free hreached' slot'
      rw [Ram.entry_setEntry_elsewhere _ _ hhere, grant.ram, hsame] at hpresent ⊢
      exact wf path' table' hdepth' hold slot' hpresent
  · have hhere : ¬ (table'.frameNumber = table.frameNumber ∧ slot' = slot) := by
      rintro ⟨hframe, -⟩
      apply grant.free
      rw [hframe]
      exact h.forest.held_of_reached hreached
    rw [Ram.entry_setEntry_elsewhere _ _ hhere, grant.ram, entry_clearFrame] at hpresent
    cases hpresent

/-- Writing a page to a last-level table touches no link. -/
theorem WellFormedTables.written (wf : WellFormedTables mem.ram root) (h : L.Carries mem roots)
    (hroot : root ∈ roots) (found : findTable mem.ram root path = some table)
    (depth : path.length = 3) (slot : Fin 512) {d : Descriptor} (page : d.IsPage) :
    WellFormedTables (mem.ram.setEntry table slot d) root := by
  have hreached : Reached mem.ram roots root path table := ⟨hroot, depth.le, found⟩
  intro path' table' hdepth' hfound' slot' hpresent
  rw [h.forest.findTable_write hreached depth slot d hroot hdepth'] at hfound'
  by_cases hhere : table'.frameNumber = table.frameNumber ∧ slot' = slot
  · obtain ⟨hframe, rfl⟩ := hhere
    obtain ⟨-, rfl⟩ := h.forest.unique ⟨hroot, hdepth', hfound'⟩ hreached hframe
    rw [Ram.entry_setEntry_here _ _ _ hframe]
    exact ⟨fun h => by omega, fun _ => page⟩
  · rw [Ram.entry_setEntry_elsewhere _ _ hhere] at hpresent ⊢
    exact wf path' table' hdepth' hfound' slot' hpresent

theorem Edits.wellFormed {added : List (List (Fin 512))} (edits : Edits L root flags mem added mem')
    (usable : flags.memoryType.isSome) (hroot : root ∈ roots) (h : L.Carries mem roots)
    (wf : WellFormedTables mem.ram root) : WellFormedTables mem'.ram root := by
  induction edits with
  | nil mem => exact wf
  | @refused mem mem₁ mem' added ram valid held rest ih =>
    apply ih (h.of_ram_eq ram valid held)
    rw [ram]
    exact wf
  | linked grant found depth vacant rest ih =>
    obtain ⟨hcarries, -⟩ := h.table_linked grant ⟨hroot, depth.le, found⟩ depth vacant
    exact ih hcarries (wf.linked h hroot grant found depth vacant)
  | written found depth slot pa rest ih =>
    have hcarries := h.forest.write ⟨hroot, depth.le, found⟩ depth slot
      (.make pa (flags ||| .page ||| .accessed))
    exact ih ⟨h.valid, hcarries⟩
      (wf.written h hroot found depth slot (Descriptor.isPage_make pa usable))

end

/-! ## Runs -/

namespace AddressSpace

variable {F : Type} [FrameSource F] {L : FrameLedger F}
  {log : List (MapCall × Except MapError Unit)} {taken : Set Nat} {space : AddressSpace}
  {mem : Memory F}

theorem Run.wellFormed (run : Run L log taken space mem) :
    WellFormedTables mem.ram space.root := by
  induction run with
  | new valid made =>
    obtain ⟨grant, -⟩ := new_grant valid made
    rw [grant.ram]
    exact wellFormedTables_of_empty (entry_clearFrame _ _)
  | map run c served ih =>
    have hcarries := run.kept.carries
    cases hcarries.map_end rfl served with
    | refused unusable => exact ih
    | nothing size => exact ih
    | pages usable size edited =>
      rw [edited.space_eq]
      exact edited.edits.wellFormed usable (Set.mem_singleton _) hcarries ih
  | meanwhile run valid held same ih =>
    exact ih.congr (fun _ hdepth => run.kept.findTable_eq same hdepth)
      fun _ _ hdepth hfound => run.kept.entry_eq same hdepth hfound

/-- Above the last level every descriptor that is there leads to the next table. -/
theorem Run.link (run : Run L log taken space mem) {path : List (Fin 512)} {table : PhysAddr}
    (hdepth : path.length < 3) (hfound : findTable mem.ram space.root path = some table)
    {slot : Fin 512} (hpresent : (mem.ram.entry table slot).isAbsent = false) :
    ∃ child, (mem.ram.entry table slot).LinksTo child ∧
      findTable mem.ram space.root (path ++ [slot]) = some child := by
  obtain ⟨child, hlink⟩ := (run.wellFormed path table hdepth.le hfound slot hpresent).link hdepth
  have hreached : Reached mem.ram {space.root} space.root path table := ⟨rfl, hdepth.le, hfound⟩
  have htable := (run.kept.carries.forest.inner hreached hdepth slot).resolve_left
    (by rw [hpresent]; decide)
  exact ⟨child, hlink, findTable_snoc_iff.2 ⟨table, hfound, htable, hlink.address_eq⟩⟩

/-- No call on the space ends at a block. -/
theorem Kept.map_ne_blockInPath (h : Kept L taken space mem) (c : MapCall) (page : VirtAddr) :
    (space.map mem c.va c.pa c.size c.flags).1 ≠ .error (.blockInPath page) := by
  intro hblock
  rcases hserved : space.map mem c.va c.pa c.size c.flags with ⟨result, space', mem'⟩
  rw [hserved] at hblock
  cases hblock
  cases h.carries.map_end (Set.mem_singleton _) hserved with
  | pages usable size edited =>
    rcases edited.outcome with ⟨hok, -⟩ | herror
    · cases hok
    · cases herror

end AddressSpace

/-! ## The main result -/

/-- In a space that was made and then served any calls, every descriptor above the last level
    that is there is a frame address with the flags of a table and leads to the next table;
    no two tables stand in one frame; every descriptor of a last-level table that is there
    is a page in use of one of the two memory types. So no call ends at a block, and an
    address is translated exactly if it has a leaf. -/
theorem descriptors_of_run {F : Type} [FrameSource F] {L : FrameLedger F}
    {log : List (MapCall × Except MapError Unit)} {taken : Set Nat} {space : AddressSpace}
    {mem : Memory F} (run : AddressSpace.Run L log taken space mem) :
    (∀ (path : List (Fin 512)) (table : PhysAddr) (slot : Fin 512), path.length < 3 →
      findTable mem.ram space.root path = some table →
      (mem.ram.entry table slot).isAbsent = false →
      ∃ child, (mem.ram.entry table slot).LinksTo child ∧
        findTable mem.ram space.root (path ++ [slot]) = some child) ∧
    (∀ (path path' : List (Fin 512)) (table table' : PhysAddr), path.length ≤ 3 →
      path'.length ≤ 3 → findTable mem.ram space.root path = some table →
      findTable mem.ram space.root path' = some table' →
      table.frameNumber = table'.frameNumber → path = path') ∧
    (∀ (path : List (Fin 512)) (table : PhysAddr) (slot : Fin 512), path.length = 3 →
      findTable mem.ram space.root path = some table →
      (mem.ram.entry table slot).isAbsent = false → (mem.ram.entry table slot).IsPage) ∧
    (∀ (c : MapCall) (page : VirtAddr),
      (space.map mem c.va c.pa c.size c.flags).1 ≠ .error (.blockInPath page)) ∧
    (∀ va : VirtAddr, (space.translate mem.ram va).isSome = (space.leaf mem.ram va).isSome) := by
  refine ⟨?_, ?_, ?_, ?_, ?_⟩
  · intro path table slot hdepth hfound hpresent
    exact run.link hdepth hfound hpresent
  · intro path path' table table' hdepth hdepth' hfound hfound' hframe
    exact (run.kept.carries.forest.unique ⟨rfl, hdepth, hfound⟩ ⟨rfl, hdepth', hfound'⟩ hframe).2
  · intro path table slot hdepth hfound hpresent
    exact (run.wellFormed path table hdepth.le hfound slot hpresent).page hdepth
  · intro c page
    exact run.kept.map_ne_blockInPath c page
  · intro va
    exact run.wellFormed.isSome_translate va

/-- A call whose flags have every bit set but two of the attribute bits. -/
def everyFlagCall : MapCall := ⟨0, ⟨0x1000⟩, ⟨0x4000_0000⟩, 4096, ⟨0xffff_ffff_ffff_ffe7⟩⟩

theorem everyFlagCall_run : ∃ taken mem,
    AddressSpace.Run FramePool.ledger [(everyFlagCall, .ok ())] taken ⟨FramePool.pageAddr 0, 4⟩
        mem ∧
      AddressSpace.leaf ⟨FramePool.pageAddr 0, 4⟩ mem.ram ⟨0x1000⟩ =
        some ⟨0xffff_ffff_ffff_ffe7⟩ := by
  have made : AddressSpace.new eightFrames =
      (.ok ⟨FramePool.pageAddr 0, 1⟩, (AddressSpace.new eightFrames).2) :=
    Prod.ext (by decide +kernel) rfl
  have run := AddressSpace.Run.new eightFrames_valid made
  refine ⟨_, _, run.map everyFlagCall (Prod.ext ?_ (Prod.ext ?_ rfl)), ?_⟩
  · decide +kernel
  · decide +kernel
  · decide +kernel

/-- With all these flags set the page is still in use and translated, and the next call ends
    at no block. -/
theorem descriptors_of_run_everyFlag : ∃ taken mem,
    AddressSpace.Run FramePool.ledger [(everyFlagCall, .ok ())] taken ⟨FramePool.pageAddr 0, 4⟩
        mem ∧
      (AddressSpace.translate ⟨FramePool.pageAddr 0, 4⟩ mem.ram ⟨0x1000⟩).isSome ∧
      ∀ (c : MapCall) (page : VirtAddr),
        (AddressSpace.map ⟨FramePool.pageAddr 0, 4⟩ mem c.va c.pa c.size c.flags).1 ≠
          .error (.blockInPath page) := by
  obtain ⟨taken, mem, run, hleaf⟩ := everyFlagCall_run
  obtain ⟨-, -, -, hblock, htranslate⟩ := descriptors_of_run run
  refine ⟨taken, mem, run, ?_, hblock⟩
  rw [htranslate, hleaf]
  rfl

end TaskKernel
