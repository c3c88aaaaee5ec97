/-
  TaskKernel.Proofs.PageTable.TablesOnly

  Frames that hold tables and nothing else. Whatever the ledger says is held has a table in
  it, and walks from the roots lead there. Making spaces and mapping keep it so, also where
  frames run out on the way, since a new table is linked before the next one is asked for.
-/
import TaskKernel.Proofs.PageTable.Apart
import TaskKernel.Proofs.PageTable.WellFormed

namespace TaskKernel

/-! ## The tables of several spaces -/

/-- The tables that walks from the roots lead to. -/
def tablesUnder (ram : Ram) (roots : Set PhysAddr) : Set PhysAddr :=
  {table | ∃ root path, Reached ram roots root path table}

section

variable {ram ram' : Ram} {roots roots' : Set PhysAddr}

theorem mem_tablesUnder_of_root (ram : Ram) {root : PhysAddr} (hroot : root ∈ roots) :
    root ∈ tablesUnder ram roots :=
  ⟨root, [], hroot, Nat.zero_le 3, rfl⟩

theorem tablesUnder_mono (ram : Ram) (hroots : roots ⊆ roots') :
    tablesUnder ram roots ⊆ tablesUnder ram roots' :=
  fun _ ⟨root, path, hreached⟩ =>
    ⟨root, path, hroots hreached.root_mem, hreached.depth, hreached.found⟩

theorem tablesUnder_congr (h : ∀ root ∈ roots, ∀ path : List (Fin 512), path.length ≤ 3 →
    findTable ram' root path = findTable ram root path) :
    tablesUnder ram' roots = tablesUnder ram roots := by
  ext table
  refine exists_congr fun root => exists_congr fun path => ⟨?_, ?_⟩
  · rintro ⟨hroot, hdepth, hfound⟩
    exact ⟨hroot, hdepth, (h root hroot path hdepth).symm.trans hfound⟩
  · rintro ⟨hroot, hdepth, hfound⟩
    exact ⟨hroot, hdepth, (h root hroot path hdepth).trans hfound⟩

/-- Links lead to whole frames, so tables start at page boundaries if the roots do. -/
theorem pageOffset_of_mem_tablesUnder (haligned : ∀ root ∈ roots, root.pageOffset = 0)
    {table : PhysAddr} (h : table ∈ tablesUnder ram roots) : table.pageOffset = 0 := by
  obtain ⟨root, path, hroot, -, hfound⟩ := h
  induction path using List.reverseRecOn with
  | nil =>
    obtain rfl := Option.some.inj hfound
    exact haligned _ hroot
  | append_singleton path slot _ =>
    obtain ⟨parent, -, -, rfl⟩ := findTable_snoc_iff.1 hfound
    exact (Descriptor.address_aligned_below _).1

end

/-- One more root at the end of a list. -/
theorem setOf_mem_append_singleton (roots : List PhysAddr) (root : PhysAddr) :
    {r | r ∈ roots ++ [root]} = insert root {r | r ∈ roots} := by
  ext r
  rw [Set.mem_ofPred_eq, List.mem_append, List.mem_singleton, Set.mem_insert_iff, or_comm]
  rfl

/-! ## Ledgers of nothing but tables -/

namespace FrameLedger

variable {F : Type} [FrameSource F]

/-- The tables under `roots` are in order, and the ledger has no frame without one. -/
structure TablesOnly (L : FrameLedger F) (mem : Memory F) (roots : List PhysAddr) : Prop where
  carries : L.Carries mem {root | root ∈ roots}
  covered : L.held mem.frames ⊆ Address.frameNumber '' tablesUnder mem.ram {root | root ∈ roots}
  aligned : ∀ root ∈ roots, root.pageOffset = 0

/-- One step of a walk adds the new table to those that are reached. -/
theorem Carries.tablesUnder_linked {L : FrameLedger F} {mem mem₁ : Memory F}
    {roots : Set PhysAddr} (h : L.Carries mem roots) {root table child : PhysAddr}
    (grant : TableGrant L mem mem₁ child) {path : List (Fin 512)} {slot : Fin 512}
    (hreached : Reached mem.ram roots root path table) (depth : path.length < 3)
    (vacant : (mem.ram.entry table slot).isAbsent = true) :
    tablesUnder (mem₁.ram.setEntry table slot (.make child .intermediate)) roots =
      insert child (tablesUnder mem.ram roots) := by
  have growth := h.growth grant hreached depth vacant
  have hclear {root' : PhysAddr} (hroot : root' ∈ roots) {path' : List (Fin 512)}
      (hdepth : path'.length ≤ 3) :
      findTable mem₁.ram root' path' = findTable mem.ram root' path' := by
    rw [grant.ram]
    exact h.forest.findTable_clear grant.free hroot hdepth
  -- No walk that was there is lost, and the only new one ends at the new table.
  ext table'
  constructor
  · rintro ⟨root', path', hr⟩
    rcases growth.reached_cases hr with hold | ⟨-, -, rfl⟩
    · exact Or.inr ⟨root', path', hold.root_mem, hold.depth,
        (hclear hold.root_mem hold.depth).symm.trans hold.found⟩
    · exact Set.mem_insert _ _
  · rintro (rfl | ⟨root', path', hold⟩)
    · refine ⟨root, path ++ [slot], hreached.root_mem, ?_, ?_⟩
      · rw [List.length_append, List.length_singleton]
        exact depth
      · apply (growth.findTable_iff hreached.root_mem _).2 (Or.inr ⟨rfl, rfl, rfl⟩)
        rw [List.length_append, List.length_singleton]
        exact depth
    · exact ⟨root', path', hold.root_mem, hold.depth, (growth.findTable_iff hold.root_mem
        hold.depth).2 (Or.inl ((hclear hold.root_mem hold.depth).trans hold.found))⟩

namespace TablesOnly

variable {L : FrameLedger F} {mem mem' : Memory F} {roots : List PhysAddr}

/-- The tables that are reached stand in the frames that are held. -/
theorem held_eq (h : L.TablesOnly mem roots) :
    L.held mem.frames = Address.frameNumber '' tablesUnder mem.ram {root | root ∈ roots} := by
  refine Set.Subset.antisymm h.covered ?_
  rintro n ⟨table, ⟨root, path, hreached⟩, rfl⟩
  exact h.carries.forest.held_of_reached hreached

theorem of_ram_eq (h : L.TablesOnly mem roots) (hram : mem'.ram = mem.ram)
    (hvalid : L.valid mem'.frames) (hheld : L.held mem'.frames = L.held mem.frames) :
    L.TablesOnly mem' roots := by
  refine ⟨h.carries.of_ram_eq hram hvalid hheld, ?_, h.aligned⟩
  rw [hram, hheld]
  exact h.covered

theorem refuse (h : L.TablesOnly mem roots) {size : Nat}
    (heq : mem.allocate size = (none, mem')) : L.TablesOnly mem' roots := by
  obtain ⟨hvalid, hheld⟩ := L.refused h.carries.valid heq
  exact h.of_ram_eq (ram_of_allocate heq) hvalid hheld

/-! ## Mapping and making spaces -/

/-- A table that is put in is reached, and a page that is written hides none. -/
theorem edits (h : L.TablesOnly mem roots) {root : PhysAddr} (hroot : root ∈ roots)
    {flags : Flags} {added : List (List (Fin 512))} (edits : Edits L root flags mem added mem') :
    L.TablesOnly mem' roots := by
  -- Only a link takes a frame, and from then on the frame is reached.
  induction edits with
  | nil => exact h
  | refused ram valid held rest ih => exact ih (h.of_ram_eq ram valid held)
  | linked grant found depth vacant rest ih =>
    have hreached : Reached _ {root | root ∈ roots} root _ _ := ⟨hroot, depth.le, found⟩
    refine ih ⟨(h.carries.table_linked grant hreached depth vacant).1, ?_, h.aligned⟩
    rw [Memory.mapRam_ram, h.carries.tablesUnder_linked grant hreached depth vacant,
      Memory.mapRam_frames, grant.held, Set.image_insert_eq]
    exact Set.insert_subset_insert h.covered
  | @written mem mem' added table path found depth slot pa rest ih =>
    have hreached : Reached mem.ram {root | root ∈ roots} root path table :=
      ⟨hroot, depth.le, found⟩
    refine ih ⟨⟨h.carries.valid, h.carries.forest.write hreached depth slot _⟩, ?_, h.aligned⟩
    rw [Memory.mapRam_ram, tablesUnder_congr fun root hroot path hdepth =>
      h.carries.forest.findTable_write hreached depth slot _ hroot hdepth]
    exact h.covered

/-- However a call ends, the tables that it took are reached. -/
theorem map (h : L.TablesOnly mem roots) {space space' : AddressSpace}
    (hspace : space.root ∈ roots) {va : VirtAddr} {pa : PhysAddr} {size : Nat} {flags : Flags}
    {result : Except MapError Unit}
    (served : space.map mem va pa size flags = (result, space', mem')) :
    L.TablesOnly mem' roots ∧ space'.root ∈ roots := by
  cases h.carries.map_end (c := ⟨0, va, pa, size, flags⟩) hspace served with
  | refused unusable => exact ⟨h, hspace⟩
  | nothing size => exact ⟨h, hspace⟩
  | pages usable size edited =>
    rw [edited.space_eq]
    exact ⟨h.edits hspace edited.edits, hspace⟩

/-- A new root is one more table. -/
theorem new (h : L.TablesOnly mem roots) : L.TablesOnly (AddressSpace.new mem).2
    (roots ++ ((AddressSpace.new mem).1.toOption.map AddressSpace.root).toList) := by
  rcases h.carries.new_cases with ⟨mem', made, hcarries, -⟩ | ⟨space, mem', made, -, hcarries, -⟩
  · rw [made]
    show L.TablesOnly mem' (roots ++ [])
    rw [List.append_nil]
    rcases allocateTable_cases L mem h.carries.valid with
      ⟨mem₁, heq, hram, hvalid, hheld⟩ | ⟨root, mem₁, heq, -⟩
    · rw [AddressSpace.new, heq] at made
      cases made
      exact h.of_ram_eq hram hvalid hheld
    · rw [AddressSpace.new, heq] at made
      cases made
  · obtain ⟨grant, -⟩ := AddressSpace.new_grant h.carries.valid made
    rw [made]
    show L.TablesOnly mem' (roots ++ [space.root])
    refine ⟨?_, ?_, ?_⟩
    · rw [setOf_mem_append_singleton]
      exact hcarries
    · rw [setOf_mem_append_singleton, grant.held]
      refine Set.insert_subset ⟨_, mem_tablesUnder_of_root _ (Set.mem_insert _ _), rfl⟩ ?_
      -- The frame of the new root was free, so clearing it goes unseen by the other walks.
      refine h.covered.trans (Set.image_mono ?_)
      have hsame : tablesUnder mem'.ram {root | root ∈ roots} = tablesUnder mem.ram _ :=
        tablesUnder_congr fun root hroot path hdepth => by
          rw [grant.ram]
          exact h.carries.forest.findTable_clear grant.free hroot hdepth
      rw [← hsame]
      exact tablesUnder_mono _ (Set.subset_insert _ _)
    · refine List.forall_mem_append.2 ⟨h.aligned, List.forall_mem_singleton.2 ?_⟩
      rw [← grant.address]
      exact (Descriptor.address_aligned_below _).1

/-! ## Frames in other use -/

variable {others : Set Nat} {size : Nat} {pa : PhysAddr}

/-- What is taken for another use is told apart from the tables. -/
theorem reserve (h : (L.besides others).TablesOnly mem roots)
    (heq : mem.allocate size = (some pa, mem')) :
    (L.besides (others ∪ framesFrom pa size)).TablesOnly mem' roots ∧
      pa.pageOffset = 0 ∧ Disjoint others (framesFrom pa size) := by
  obtain ⟨hcarries, hgrant⟩ := h.carries.reserve heq
  refine ⟨⟨hcarries, ?_, h.aligned⟩, hgrant.aligned, hgrant.fresh.mono_left h.carries.valid.2⟩
  have hframes := frames_of_allocate heq
  have hheld := L.held_of_some mem.frames size h.carries.valid.1 pa (congrArg Prod.fst hframes)
  rw [hframes] at hheld
  rw [ram_of_allocate heq]
  -- The frames taken just now are among the others already.
  refine Set.Subset.trans ?_ h.covered
  rintro n ⟨hn, hout⟩
  rw [hheld] at hn
  exact ⟨hn.resolve_right fun hin => hout (Or.inr hin), fun hin => hout (Or.inl hin)⟩

/-- Writing to frames in other use loses no table. -/
theorem overwrite (h : (L.besides others).TablesOnly mem roots) (f : Ram → Ram)
    (hsame : ∀ n, n ∉ others → (f mem.ram).frame n = mem.ram.frame n) :
    (L.besides others).TablesOnly (mem.mapRam f) roots := by
  refine ⟨(h.carries.overwrite f hsame).1, ?_, h.aligned⟩
  rw [Memory.mapRam_ram, tablesUnder_congr fun root hroot path hdepth =>
    findTable_congr (fun _ _ _ hr _ slot => h.carries.entry_overwrite hsame hr slot) hroot hdepth]
  exact h.covered

/-- A range in other use goes back to the source. -/
theorem giveBack (h : (L.besides (others ∪ framesFrom pa size)).TablesOnly mem roots)
    (hreturns : L.Returns) (haligned : pa.pageOffset = 0)
    (hapart : Disjoint others (framesFrom pa size)) :
    (L.besides others).TablesOnly (mem.release pa size) roots := by
  refine ⟨h.carries.giveBack hreturns haligned Set.subset_union_right Set.subset_union_left hapart,
    ?_, h.aligned⟩
  obtain ⟨hvalid, hothers⟩ := h.carries.valid
  have hrelease : L.held (mem.release pa size).frames = L.held mem.frames \ framesFrom pa size :=
    hreturns.held hvalid haligned (Set.subset_union_right.trans hothers)
  refine Set.Subset.trans ?_ h.covered
  rintro n ⟨hn, hout⟩
  rw [hrelease] at hn
  exact ⟨hn.1, fun hin => hin.elim hout hn.2⟩

end TablesOnly

end FrameLedger

end TaskKernel
