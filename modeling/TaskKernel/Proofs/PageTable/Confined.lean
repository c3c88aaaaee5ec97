/-
  TaskKernel.Proofs.PageTable.Confined

  Where mapping writes. A frame that is taken for a table is cleared, and entries are set in
  tables of the trees only, so whatever stands in frames that are not held for tables stays
  as it is.
-/
import TaskKernel.Proofs.PageTable.Refinement

namespace TaskKernel

variable {F : Type} [FrameSource F] {L : FrameLedger F} {mem mem₁ mem' : Memory F}

/-- On the way from `mem` to `mem'` frames were taken, and only frames that are held in the
    end were written. -/
structure Confined (L : FrameLedger F) (mem mem' : Memory F) : Prop where
  held : L.held mem.frames ⊆ L.held mem'.frames
  same : ∀ n, n ∉ L.held mem'.frames → mem'.ram.frame n = mem.ram.frame n

namespace Confined

theorem refl (L : FrameLedger F) (mem : Memory F) : Confined L mem mem :=
  ⟨Set.Subset.refl _, fun _ _ => rfl⟩

/-- Frames that are free in the end were free in between, so neither part of the way wrote
    to them. -/
theorem trans (h : Confined L mem mem₁) (h' : Confined L mem₁ mem') : Confined L mem mem' := by
  refine ⟨h.held.trans h'.held, fun n hn => ?_⟩
  rw [h'.same n hn, h.same n fun hin => hn (h'.held hin)]

/-- A refused request writes nothing. -/
theorem of_ram_eq (hram : mem'.ram = mem.ram) (hheld : L.held mem'.frames = L.held mem.frames) :
    Confined L mem mem' :=
  ⟨hheld.ge, fun n _ => by rw [hram]⟩

/-- Of all frames the one that was granted is cleared, and it is held from then on. -/
theorem of_grant {table : PhysAddr} (grant : TableGrant L mem mem' table) :
    Confined L mem mem' := by
  refine ⟨?_, fun n hn => ?_⟩
  · rw [grant.held]
    exact Set.subset_insert _ _
  · rw [grant.held] at hn
    have hne : n ≠ table.frameNumber := fun heq => hn (heq ▸ Set.mem_insert _ _)
    rw [grant.ram, Ram.clearFrame, Ram.frame_setFrame_of_ne _ _ hne]

/-- An entry is written inside the frame of its table. -/
theorem setEntry {table : PhysAddr} (hheld : table.frameNumber ∈ L.held mem.frames)
    (slot : Fin 512) (d : Descriptor) : Confined L mem (mem.mapRam (·.setEntry table slot d)) := by
  refine ⟨Set.Subset.refl _, fun n hn => ?_⟩
  have hne : n ≠ table.frameNumber := fun heq => hn (heq ▸ hheld)
  rw [Memory.mapRam_ram, Ram.setEntry, Ram.frame_setFrame_of_ne _ _ hne]

end Confined

namespace FrameLedger.Carries

variable {roots : Set PhysAddr}

/-- A walk clears the tables that it makes and links them from tables of the tree. -/
theorem reachTable_confined (h : L.Carries mem roots) {root : PhysAddr} (hroot : root ∈ roots)
    (page : VirtAddr) (path rest : List (Fin 512)) {table : PhysAddr}
    (hfound : findTable mem.ram root path = some table) (hlength : path.length + rest.length = 3) :
    Confined L mem (reachTable page mem table rest).memory := by
  -- As the walk itself: each step moves one slot from `rest` to the end of `path`.
  induction rest generalizing mem path table with
  | nil => exact .refl L mem
  | cons slot rest ih =>
    rw [List.length_cons] at hlength
    have hreached : Reached mem.ram roots root path table := ⟨hroot, by omega, hfound⟩
    have hlength' : (path ++ [slot]).length + rest.length = 3 := by
      rw [List.length_append, List.length_singleton]
      omega
    rw [reachTable]
    dsimp only
    split
    · next hvacant =>
      rcases allocateTable_cases L mem h.valid with
        ⟨mem', heq, hram, -, hheld⟩ | ⟨child, mem', heq, grant⟩
      · rw [heq]
        exact .of_ram_eq hram hheld
      · rw [heq]
        obtain ⟨hcarries, -, hnew⟩ := h.table_linked grant hreached (by omega) hvacant
        have hgrant := Confined.of_grant grant
        -- The new table and the one it is linked from are both held.
        have hlink := Confined.setEntry (hgrant.held (h.forest.held_of_reached hreached)) slot
          (.make child .intermediate)
        dsimp only
        rw [grant.address]
        exact hgrant.trans (hlink.trans (ih hcarries (path ++ [slot]) hnew hlength'))
    · next hpresent =>
      have htable : (mem.ram.entry table slot).isTable = true :=
        (h.forest.inner hreached (by omega) slot).resolve_left hpresent
      rw [if_pos htable]
      exact ih h (path ++ [slot]) (findTable_snoc_iff.2 ⟨table, hfound, htable, rfl⟩) hlength'

/-- A run of pages walks to their tables and writes the leaves there. -/
theorem mapPages_confined (h : L.Carries mem roots) (flags : Flags) (space : AddressSpace)
    (hspace : space.root ∈ roots) (va : VirtAddr) (pa : PhysAddr) {count : Nat}
    (hrange : va.toNat + count * pageSize ≤ 2 ^ 48) :
    Confined L mem (space.mapPages flags mem va pa count).2.2 := by
  -- On the pages that are left; each is a walk, and a write to the table where it arrives.
  induction count generalizing mem space va pa with
  | zero => exact .refl L mem
  | succ count ih =>
    rw [Nat.add_mul, pageSize] at hrange
    have walked := h.reachTable_walked hspace va [] va.tablePath rfl rfl
    have hwalk := h.reachTable_confined hspace va [] va.tablePath rfl rfl
    rw [List.nil_append] at walked
    rw [AddressSpace.mapPages]
    dsimp only
    rcases walked.arrives with ⟨table, hresult, hfound⟩ | hresult
    · rw [hresult]
      dsimp only
      generalize reachTable va mem space.root va.tablePath = walk at walked hwalk hfound
      obtain ⟨hcarries, -⟩ := page_written walked hspace (by omega) hfound pa flags
      have hreached : Reached walk.memory.ram roots space.root va.tablePath table :=
        ⟨hspace, Nat.le_refl 3, hfound⟩
      have hwrite := Confined.setEntry (walked.carries.forest.held_of_reached hreached) va.leafSlot
        (.make pa (flags ||| .page ||| .accessed))
      have hnext : (va.plus pageSize).toNat = va.toNat + 4096 := Address.toNat_plus_of_lt (by
        rw [pageSize]
        omega)
      have hrest := ih hcarries { space with tables := space.tables + walk.created } hspace
        (va.plus pageSize) (pa.plus pageSize) (by rw [hnext, pageSize]; omega)
      exact hwalk.trans (hwrite.trans hrest)
    · rw [hresult]
      exact hwalk

/-- A call, however it ends, writes to table frames only. -/
theorem map_confined (h : L.Carries mem roots) {c : MapCall} (bounds : c.InBounds)
    {space : AddressSpace} (hspace : space.root ∈ roots) :
    Confined L mem (space.map mem c.va c.pa c.size c.flags).2.2 := by
  rw [AddressSpace.map]
  split
  · exact .refl L mem
  · split
    · exact .refl L mem
    · refine h.mapPages_confined c.flags space hspace c.va.pageDown c.pa.pageDown ?_
      have hle := bounds.va_le
      rw [Address.toNat_pageDown, AddressSpace.pagesTouched, Address.pageOffset_eq_mod, pageSize]
      omega

/-- Making a space writes to the frame of its root, if there is one. -/
theorem new_confined (h : L.Carries mem roots) : Confined L mem (AddressSpace.new mem).2 := by
  rcases allocateTable_cases L mem h.valid with
    ⟨mem', heq, hram, -, hheld⟩ | ⟨root, mem', heq, grant⟩
  · rw [AddressSpace.new, heq]
    exact .of_ram_eq hram hheld
  · rw [AddressSpace.new, heq]
    exact .of_grant grant

end FrameLedger.Carries

end TaskKernel
