/-
  TaskKernel.Proofs.PageTable.Mapping

  What a walk that creates tables, a run of pages and a new root do to the leaves of
  all address spaces. Tables come and go unseen: a leaf changes only where a page is
  written, and a request that fails has written the pages before the failure.
-/
import TaskKernel.Proofs.Memory.FrameLedger
import TaskKernel.Proofs.PageTable.Forest

namespace TaskKernel

/-! ## Tables from a frame source -/

variable {F : Type} [FrameSource F]

/-- A cleared frame that was free has been taken for a table. -/
structure TableGrant (L : FrameLedger F) (mem mem' : Memory F) (table : PhysAddr) : Prop where
  ram : mem'.ram = mem.ram.clearFrame table
  valid : L.valid mem'.frames
  held : L.held mem'.frames = insert table.frameNumber (L.held mem.frames)
  free : table.frameNumber ∉ L.held mem.frames
  address : (Descriptor.make table .intermediate).address = table

theorem allocateTable_cases (L : FrameLedger F) (mem : Memory F) (hvalid : L.valid mem.frames) :
    (∃ mem', mem.allocateTable = (none, mem') ∧ mem'.ram = mem.ram ∧ L.valid mem'.frames ∧
      L.held mem'.frames = L.held mem.frames) ∨
    (∃ table mem', mem.allocateTable = (some table, mem') ∧ TableGrant L mem mem' table) := by
  have hvalid' := L.valid_allocate mem.frames pageSize hvalid
  cases hresult : (FrameSource.allocate mem.frames pageSize).1 with
  | none =>
    left
    refine ⟨(mem.allocate pageSize).2, ?_, rfl, hvalid', L.held_of_none _ _ hvalid hresult⟩
    have hpair : mem.allocate pageSize = (none, (mem.allocate pageSize).2) := by
      rw [← hresult]
      rfl
    rw [Memory.allocateTable, hpair]
  | some table =>
    right
    refine ⟨table, (mem.allocate pageSize).2.mapRam (·.clearFrame table), ?_, ?_⟩
    · have hpair : mem.allocate pageSize = (some table, (mem.allocate pageSize).2) := by
        rw [← hresult]
        rfl
      rw [Memory.allocateTable, hpair]
    · have hgrant := L.grantable_of_some _ _ hvalid _ hresult
      have hheld := L.held_of_some _ _ hvalid _ hresult
      have hfresh := hgrant.fresh
      have hbelow := hgrant.below
      have hround : pageRoundUp pageSize = 4096 := by decide
      rw [framesFrom_pageSize] at hfresh hheld
      rw [Set.union_singleton] at hheld
      refine ⟨rfl, hvalid', hheld, Set.disjoint_singleton_right.1 hfresh, ?_⟩
      exact Descriptor.address_make_intermediate hgrant.aligned (by omega)

/-! ## Walks that create tables -/

/-- The tables under `roots` are in order, in frames that the ledger says are held. -/
structure FrameLedger.Carries (L : FrameLedger F) (mem : Memory F) (roots : Set PhysAddr) :
    Prop where
  valid : L.valid mem.frames
  forest : Forest mem.ram roots (L.held mem.frames)

/-- Every leaf under `roots` is the same in both memories. -/
def SameLeaves (roots : Set PhysAddr) (ram ram' : Ram) : Prop :=
  ∀ root ∈ roots, ∀ path : List (Fin 512), path.length = 3 →
    ∀ slot, leafAt ram' root path slot = leafAt ram root path slot

theorem SameLeaves.of_eq {roots : Set PhysAddr} {ram ram' : Ram} (h : ram' = ram) :
    SameLeaves roots ram ram' := by
  intro root hroot path hlength slot
  rw [h]

theorem SameLeaves.trans {roots : Set PhysAddr} {ram ram' ram'' : Ram}
    (h : SameLeaves roots ram ram') (h' : SameLeaves roots ram' ram'') :
    SameLeaves roots ram ram'' := by
  intro root hroot path hlength slot
  rw [h' root hroot path hlength slot, h root hroot path hlength slot]

/-- How a walk along `path` ends: no leaf has changed, and unless frames ran out it has
    arrived at a table. -/
structure Walked (L : FrameLedger F) (mem : Memory F) (roots : Set PhysAddr) (root : PhysAddr)
    (path : List (Fin 512)) (walk : Walk F) : Prop where
  carries : L.Carries walk.memory roots
  leaves : SameLeaves roots mem.ram walk.memory.ram
  arrives : (∃ table, walk.result = .ok table ∧ findTable walk.memory.ram root path = some table) ∨
    walk.result = .error .outOfMemory

namespace FrameLedger.Carries

variable {L : FrameLedger F} {mem : Memory F} {roots : Set PhysAddr}

/-- A refused request changes neither tables nor leaves. -/
theorem of_ram_eq (h : L.Carries mem roots) {mem' : Memory F} (hram : mem'.ram = mem.ram)
    (hvalid : L.valid mem'.frames) (hheld : L.held mem'.frames = L.held mem.frames) :
    L.Carries mem' roots := by
  refine ⟨hvalid, ?_⟩
  rw [hram, hheld]
  exact h.forest

theorem growth (h : L.Carries mem roots) {mem' : Memory F} {child : PhysAddr}
    (grant : TableGrant L mem mem' child) {root table : PhysAddr} {path : List (Fin 512)}
    {slot : Fin 512} (hreached : Reached mem.ram roots root path table) (hdepth : path.length < 3)
    (hvacant : (mem.ram.entry table slot).isAbsent = true) :
    Forest.Growth mem'.ram roots (L.held mem.frames) root path table slot child := by
  have hfind := h.forest.findTable_clear grant.free hreached.root_mem hreached.depth
  rw [grant.ram]
  refine ⟨h.forest.clear grant.free, ⟨hreached.root_mem, hreached.depth, ?_⟩, hdepth, ?_,
    grant.free, entry_clearFrame mem.ram child, grant.address⟩
  · rw [hfind]
    exact hreached.found
  · rw [h.forest.entry_clearFrame_of_free grant.free hreached]
    exact hvacant

/-- One step of a walk: an absent entry gets a new table, which no leaf notices. -/
theorem table_linked (h : L.Carries mem roots) {mem' : Memory F} {child : PhysAddr}
    (grant : TableGrant L mem mem' child) {root table : PhysAddr} {path : List (Fin 512)}
    {slot : Fin 512} (hreached : Reached mem.ram roots root path table) (hdepth : path.length < 3)
    (hvacant : (mem.ram.entry table slot).isAbsent = true) :
    L.Carries (mem'.mapRam (·.setEntry table slot (.make child .intermediate))) roots ∧
    SameLeaves roots mem.ram (mem'.ram.setEntry table slot (.make child .intermediate)) ∧
    findTable (mem'.ram.setEntry table slot (.make child .intermediate)) root (path ++ [slot]) =
      some child := by
  have growth := h.growth grant hreached hdepth hvacant
  refine ⟨⟨grant.valid, ?_⟩, ?_, ?_⟩
  · have hforest := growth.grow
    rw [← grant.held] at hforest
    exact hforest
  · intro root' hroot' path' hlength' slot'
    rw [growth.leafAt_eq hroot' hlength' slot', grant.ram]
    exact h.forest.leafAt_clear grant.free hroot' (by omega) slot'
  · apply (growth.findTable_iff hreached.root_mem _).2 (Or.inr ⟨rfl, rfl, rfl⟩)
    rw [List.length_append, List.length_singleton]
    omega

/-- A walk creates tables where they are missing and changes no leaf. -/
theorem reachTable_walked (h : L.Carries mem roots) {root : PhysAddr} (hroot : root ∈ roots)
    (page : VirtAddr) (path rest : List (Fin 512)) {table : PhysAddr}
    (hfound : findTable mem.ram root path = some table) (hlength : path.length + rest.length = 3) :
    Walked L mem roots root (path ++ rest) (reachTable page mem table rest) := by
  -- `path` is walked already; each step moves one slot from `rest` to its end.
  induction rest generalizing mem path table with
  | nil =>
    rw [List.append_nil, reachTable]
    exact ⟨h, .of_eq rfl, Or.inl ⟨table, rfl, hfound⟩⟩
  | cons slot rest ih =>
    rw [List.length_cons] at hlength
    have hreached : Reached mem.ram roots root path table := ⟨hroot, by omega, hfound⟩
    have hpath : path ++ slot :: rest = (path ++ [slot]) ++ rest := by simp
    have hlength' : (path ++ [slot]).length + rest.length = 3 := by
      rw [List.length_append, List.length_singleton]
      omega
    rw [reachTable]
    dsimp only
    split
    · next hvacant =>
      rcases allocateTable_cases L mem h.valid with
        ⟨mem', heq, hram, hvalid, hheld⟩ | ⟨child, mem', heq, grant⟩
      · -- No frame is left: the walk stops with the entry still absent.
        rw [heq]
        exact ⟨h.of_ram_eq hram hvalid hheld, .of_eq hram, Or.inr rfl⟩
      · -- A table is linked in and the walk goes on from there.
        rw [heq]
        dsimp only
        obtain ⟨hcarries, hleaves, hnew⟩ := h.table_linked grant hreached (by omega) hvacant
        have walked := ih hcarries (path ++ [slot]) hnew hlength'
        rw [grant.address, hpath]
        exact ⟨walked.carries, hleaves.trans walked.leaves, walked.arrives⟩
    · next hpresent =>
      have htable : (mem.ram.entry table slot).isTable = true :=
        (h.forest.inner hreached (by omega) slot).resolve_left hpresent
      rw [if_pos htable, hpath]
      exact ih h (path ++ [slot]) (findTable_snoc_iff.2 ⟨table, hfound, htable, rfl⟩) hlength'

end FrameLedger.Carries

/-! ## Runs of pages -/

namespace Address

theorem toNat_plus_of_lt {kind : AddressKind} {a : Address kind} {n : Nat}
    (h : a.toNat + n < 2 ^ 64) : (a.plus n).toNat = a.toNat + n := by
  show (a.raw + BitVec.ofNat 64 n).toNat = _
  rw [BitVec.toNat_add, BitVec.toNat_ofNat, Nat.mod_eq_of_lt (by omega : n < 2 ^ 64)]
  exact Nat.mod_eq_of_lt h

theorem plus_plus {kind : AddressKind} (a : Address kind) (m n : Nat) :
    (a.plus m).plus n = a.plus (m + n) := by
  show Address.mk (a.raw + BitVec.ofNat 64 m + BitVec.ofNat 64 n) =
    Address.mk (a.raw + BitVec.ofNat 64 (m + n))
  rw [BitVec.add_assoc, ← BitVec.ofNat_add]

/-- The rest of a range starts one further on. -/
theorem plus_one_plus {kind : AddressKind} (a : Address kind) (n : Nat) :
    (a.plus 1).plus n = a.plus (n + 1) := by
  rw [plus_plus, Nat.add_comm]

theorem plus_zero {kind : AddressKind} (a : Address kind) : a.plus 0 = a :=
  congrArg Address.mk (BitVec.add_zero a.raw)

end Address

/-- The descriptor that the page of `va` gets when the pages from `first` on are mapped to
    the frames from `pa` on. -/
def pageDescriptor (first : VirtAddr) (pa : PhysAddr) (flags : Flags) (va : VirtAddr) :
    Descriptor :=
  .make (pa.plus ((va.frameNumber - first.frameNumber) * pageSize))
    (flags ||| .page ||| .accessed)

theorem isTable_page (pa : PhysAddr) (flags : Flags) :
    (Descriptor.make pa (flags ||| .page ||| .accessed)).isTable = true := by
  apply Descriptor.isTable_make
  show (flags.bits ||| Flags.page.bits ||| Flags.accessed.bits) &&& Flags.page.bits = _
  rw [BitVec.or_assoc]
  exact or_and_of_and_eq (by decide)

/-- The `count` pages from `first` on. -/
def InPages (first : VirtAddr) (count : Nat) (va : VirtAddr) : Prop :=
  first.frameNumber ≤ va.frameNumber ∧ va.frameNumber < first.frameNumber + count

/-- What has happened once the first `written` of `count` pages are mapped: those pages of
    `space` have new leaves and everything else is as it was. -/
structure Mapped (L : FrameLedger F) (roots : Set PhysAddr) (space : AddressSpace)
    (mem : Memory F) (first : VirtAddr) (pa : PhysAddr) (flags : Flags) (count written : Nat)
    (result : Except MapError Unit) (space' : AddressSpace) (mem' : Memory F) : Prop where
  root : space'.root = space.root
  carries : L.Carries mem' roots
  inside : ∀ other : AddressSpace, other.root ∈ roots → ∀ va : VirtAddr, va.toNat < 2 ^ 48 →
    other.root = space.root → InPages first written va →
    other.leaf mem'.ram va = some (pageDescriptor first pa flags va)
  outside : ∀ other : AddressSpace, other.root ∈ roots → ∀ va : VirtAddr, va.toNat < 2 ^ 48 →
    ¬ (other.root = space.root ∧ InPages first written va) →
    other.leaf mem'.ram va = other.leaf mem.ram va
  outcome : (result = .ok () ∧ written = count) ∨
    (result = .error .outOfMemory ∧ written < count)

namespace FrameLedger.Carries

variable {L : FrameLedger F} {mem : Memory F} {roots : Set PhysAddr}

/-- Writing a page below 2 ^ 48 changes the leaf of that page only. -/
theorem leaf_write (h : L.Carries mem roots) {space : AddressSpace} (hspace : space.root ∈ roots)
    {page : VirtAddr} (hpage : page.toNat < 2 ^ 48) {table : PhysAddr}
    (hfound : findTable mem.ram space.root page.tablePath = some table) {d : Descriptor}
    (hd : d.isAbsent = false) {other : AddressSpace} (hother : other.root ∈ roots)
    {va : VirtAddr} (hva : va.toNat < 2 ^ 48) :
    other.leaf (mem.ram.setEntry table page.leafSlot d) va =
      if other.root = space.root ∧ va.frameNumber = page.frameNumber then some d
      else other.leaf mem.ram va := by
  have hreached : Reached mem.ram roots space.root page.tablePath table :=
    ⟨hspace, Nat.le_refl 3, hfound⟩
  rw [AddressSpace.leaf_eq_leafAt, AddressSpace.leaf_eq_leafAt,
    h.forest.leafAt_write hreached rfl page.leafSlot hd hother rfl]
  -- Walks of one space to one slot are walks to one page.
  have hiff : (other.root = space.root ∧ va.tablePath = page.tablePath ∧
      va.leafSlot = page.leafSlot) ↔
      (other.root = space.root ∧ va.frameNumber = page.frameNumber) := by
    constructor
    · rintro ⟨hroot, hpath, hslot⟩
      exact ⟨hroot, Address.frameNumber_eq_of_slots hva hpage hpath hslot⟩
    · rintro ⟨hroot, hframe⟩
      exact ⟨hroot, Address.slots_eq_of_frameNumber hframe⟩
  simp only [hiff]

theorem leaf_of_sameLeaves {ram ram' : Ram} (h : SameLeaves roots ram ram')
    {other : AddressSpace} (hother : other.root ∈ roots) (va : VirtAddr) :
    other.leaf ram' va = other.leaf ram va := by
  rw [AddressSpace.leaf_eq_leafAt, AddressSpace.leaf_eq_leafAt]
  exact h other.root hother va.tablePath rfl va.leafSlot

/-- A descriptor written to a last-level table keeps the tables in order. -/
theorem write_leaf (h : L.Carries mem roots) {root table : PhysAddr} (hroot : root ∈ roots)
    {va : VirtAddr} (hfound : findTable mem.ram root va.tablePath = some table) (d : Descriptor) :
    L.Carries (mem.mapRam (·.setEntry table va.leafSlot d)) roots :=
  have hreached : Reached mem.ram roots root va.tablePath table := ⟨hroot, Nat.le_refl 3, hfound⟩
  ⟨h.valid, h.forest.write hreached rfl va.leafSlot d⟩

/-- One page: the walk that finds its table and the descriptor written there. -/
theorem page_written {space : AddressSpace} {va : VirtAddr} {walk : Walk F} {table : PhysAddr}
    (walked : Walked L mem roots space.root va.tablePath walk) (hspace : space.root ∈ roots)
    (hpage : va.toNat < 2 ^ 48)
    (hfound : findTable walk.memory.ram space.root va.tablePath = some table) (pa : PhysAddr)
    (flags : Flags) :
    L.Carries (walk.memory.mapRam
      (·.setEntry table va.leafSlot (.make pa (flags ||| .page ||| .accessed)))) roots ∧
    ∀ other : AddressSpace, other.root ∈ roots → ∀ va' : VirtAddr, va'.toNat < 2 ^ 48 →
      other.leaf (walk.memory.mapRam
          (·.setEntry table va.leafSlot (.make pa (flags ||| .page ||| .accessed)))).ram va' =
        if other.root = space.root ∧ va'.frameNumber = va.frameNumber then
          some (.make pa (flags ||| .page ||| .accessed))
        else other.leaf mem.ram va' := by
  have hcarries := walked.carries
  refine ⟨hcarries.write_leaf hspace hfound _, ?_⟩
  intro other hother va' hva'
  have hpresent := Descriptor.not_isAbsent_of_isTable (isTable_page pa flags)
  rw [Memory.mapRam_ram, hcarries.leaf_write hspace hpage hfound hpresent hother hva',
    leaf_of_sameLeaves walked.leaves hother]

/-- The first page is written and then the pages after it are mapped. -/
theorem mapped_cons {space next space' : AddressSpace} {mem₁ mem' : Memory F} {va : VirtAddr}
    {pa : PhysAddr} {flags : Flags} {count written : Nat} {result : Except MapError Unit}
    (mapped : Mapped L roots next mem₁ (va.plus pageSize) (pa.plus pageSize) flags count written
      result space' mem')
    (hnext : next.root = space.root)
    (hpage : (va.plus pageSize).frameNumber = va.frameNumber + 1)
    (hwrite : ∀ other : AddressSpace, other.root ∈ roots → ∀ va' : VirtAddr,
      va'.toNat < 2 ^ 48 → other.leaf mem₁.ram va' =
        if other.root = space.root ∧ va'.frameNumber = va.frameNumber then
          some (.make pa (flags ||| .page ||| .accessed))
        else other.leaf mem.ram va') :
    Mapped L roots space mem va pa flags (count + 1) (written + 1) result space' mem' := by
  refine ⟨mapped.root.trans hnext, mapped.carries, ?_, ?_, ?_⟩
  · rintro other hother va' hva' hroot ⟨hle, hlt⟩
    by_cases hfirst : va'.frameNumber = va.frameNumber
    · have hout : ¬ (other.root = next.root ∧ InPages (va.plus pageSize) written va') := by
        rintro ⟨-, hle', -⟩
        omega
      rw [mapped.outside other hother va' hva' hout, hwrite other hother va' hva',
        if_pos ⟨hroot, hfirst⟩, pageDescriptor, hfirst, Nat.sub_self, Nat.zero_mul,
        Address.plus_zero]
    · have hin : InPages (va.plus pageSize) written va' := ⟨by omega, by omega⟩
      -- Counted from the first page, every distance is one page more.
      have hdistance : pageSize + (va'.frameNumber - (va.frameNumber + 1)) * pageSize =
          (va'.frameNumber - va.frameNumber) * pageSize := by
        rw [pageSize]
        omega
      rw [mapped.inside other hother va' hva' (hroot.trans hnext.symm) hin, pageDescriptor,
        pageDescriptor, Address.plus_plus, hpage, hdistance]
  · intro other hother va' hva' hnot
    have hout : ¬ (other.root = next.root ∧ InPages (va.plus pageSize) written va') := by
      rintro ⟨hroot, hle, hlt⟩
      exact hnot ⟨hroot.trans hnext, by omega, by omega⟩
    have hother' : ¬ (other.root = space.root ∧ va'.frameNumber = va.frameNumber) := by
      rintro ⟨hroot, hfirst⟩
      exact hnot ⟨hroot, by omega, by omega⟩
    rw [mapped.outside other hother va' hva' hout, hwrite other hother va' hva', if_neg hother']
  · rcases mapped.outcome with ⟨hok, hcount⟩ | ⟨herror, hcount⟩
    · exact Or.inl ⟨hok, by omega⟩
    · exact Or.inr ⟨herror, by omega⟩

/-- A run of pages below 2 ^ 48 is mapped in ascending order until frames run out. -/
theorem mapPages_mapped (h : L.Carries mem roots) (flags : Flags) (space : AddressSpace)
    (hspace : space.root ∈ roots) (va : VirtAddr) (pa : PhysAddr) {count : Nat}
    (hrange : va.toNat + count * pageSize ≤ 2 ^ 48) :
    ∃ written result space' mem', space.mapPages flags mem va pa count = (result, space', mem') ∧
      Mapped L roots space mem va pa flags count written result space' mem' := by
  -- On the pages, each with the memory that the one before it left.
  induction count generalizing mem space va pa with
  | zero =>
    refine ⟨0, .ok (), space, mem, rfl, rfl, h, ?_, fun _ _ _ _ _ => rfl, Or.inl ⟨rfl, rfl⟩⟩
    rintro other hother va' hva' hroot ⟨hle, hlt⟩
    omega
  | succ count ih =>
    rw [Nat.add_mul, pageSize] at hrange
    have hpage : va.toNat < 2 ^ 48 := by omega
    have walked := h.reachTable_walked hspace va [] va.tablePath rfl rfl
    rw [List.nil_append] at walked
    rw [AddressSpace.mapPages]
    dsimp only
    rcases walked.arrives with ⟨table, hresult, hfound⟩ | hresult
    · -- This page is written; the induction hypothesis is about the pages after it.
      rw [hresult]
      dsimp only
      generalize reachTable va mem space.root va.tablePath = walk at walked hfound
      obtain ⟨hcarries, hwrite⟩ := page_written walked hspace hpage hfound pa flags
      have hnext : (va.plus pageSize).toNat = va.toNat + 4096 := Address.toNat_plus_of_lt (by
        rw [pageSize]
        omega)
      obtain ⟨written, result, space', mem', heq, mapped⟩ :=
        ih hcarries { space with tables := space.tables + walk.created } hspace
          (va.plus pageSize) (pa.plus pageSize) (by rw [hnext, pageSize]; omega)
      refine ⟨written + 1, result, space', mem', heq, mapped_cons mapped rfl ?_ hwrite⟩
      rw [Address.frameNumber, Address.frameNumber, hnext]
      omega
    · -- No table for this page: nothing is written from here on.
      rw [hresult]
      refine ⟨0, _, _, _, rfl, rfl, walked.carries, ?_, ?_, Or.inr ⟨rfl, by omega⟩⟩
      · rintro other hother va' hva' hroot ⟨hle, hlt⟩
        omega
      · intro other hother va' _ _
        exact leaf_of_sameLeaves walked.leaves hother va'

/-- Mapping keeps the tables in order, whatever the pages and the frames. -/
theorem mapPages_carries (h : L.Carries mem roots) (flags : Flags) {space : AddressSpace}
    (hspace : space.root ∈ roots) (va : VirtAddr) (pa : PhysAddr) (count : Nat) :
    L.Carries (space.mapPages flags mem va pa count).2.2 roots := by
  induction count generalizing mem space va pa with
  | zero => exact h
  | succ count ih =>
      have walked := h.reachTable_walked hspace va [] va.tablePath rfl rfl
      rw [List.nil_append] at walked
      rw [AddressSpace.mapPages]
      dsimp only
      rcases walked.arrives with ⟨table, hresult, hfound⟩ | hresult
      · rw [hresult]
        dsimp only
        refine ih ?_ ?_ _ _
        · exact walked.carries.write_leaf hspace hfound _
        · exact hspace
      · rw [hresult]
        exact walked.carries

theorem map_carries (h : L.Carries mem roots) {space : AddressSpace} (hspace : space.root ∈ roots)
    (va : VirtAddr) (pa : PhysAddr) (size : Nat) (flags : Flags) :
    L.Carries (space.map mem va pa size flags).2.2 roots := by
  rw [AddressSpace.map]
  split
  · exact h
  · split
    · exact h
    · exact h.mapPages_carries flags hspace _ _ _

/-- A new address space is empty, and the others are as they were. -/
theorem new_cases (h : L.Carries mem roots) :
    (∃ mem', AddressSpace.new mem = (.error .outOfMemory, mem') ∧ L.Carries mem' roots ∧
      SameLeaves roots mem.ram mem'.ram) ∨
    (∃ space mem', AddressSpace.new mem = (.ok space, mem') ∧ space.root ∉ roots ∧
      L.Carries mem' (insert space.root roots) ∧ SameLeaves roots mem.ram mem'.ram ∧
      ∀ va, space.leaf mem'.ram va = none) := by
  rcases allocateTable_cases L mem h.valid with
    ⟨mem', heq, hram, hvalid, hheld⟩ | ⟨root, mem', heq, grant⟩
  · left
    exact ⟨mem', by rw [AddressSpace.new, heq], h.of_ram_eq hram hvalid hheld, .of_eq hram⟩
  · right
    have hempty : ∀ slot, mem'.ram.entry root slot = .absent := by
      rw [grant.ram]
      exact entry_clearFrame mem.ram root
    have hcleared : Forest mem'.ram roots (L.held mem.frames) := by
      rw [grant.ram]
      exact h.forest.clear grant.free
    refine ⟨⟨root, 1⟩, mem', by rw [AddressSpace.new, heq], ?_, ⟨grant.valid, ?_⟩, ?_, ?_⟩
    · intro hroot
      have hreached : Reached mem.ram roots root [] root := ⟨hroot, Nat.zero_le 3, rfl⟩
      exact grant.free (h.forest.held_of_reached hreached)
    · rw [grant.held]
      exact hcleared.plant grant.free hempty
    · intro root' hroot' path' hlength' slot'
      rw [grant.ram]
      exact h.forest.leafAt_clear grant.free hroot' (by omega) slot'
    · intro va
      rw [AddressSpace.leaf_eq_leafAt]
      exact Forest.leafAt_plant hempty va.tablePath va.leafSlot

end FrameLedger.Carries

end TaskKernel
