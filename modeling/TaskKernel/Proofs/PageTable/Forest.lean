/-
  TaskKernel.Proofs.PageTable.Forest

  The tables of all address spaces as a forest in physical memory: every table
  stands in a frame of its own, at the end of one path under one root, and above the
  last level every entry that is there leads to a table. Three changes keep it a
  forest: planting a root, growing a table below an absent entry, and writing an entry
  of a last-level table. The first two leave every leaf as it was, the third changes
  one leaf.
-/
import TaskKernel.Proofs.PageTable.Walks
import Mathlib.Data.List.Induction
import Mathlib.Data.Set.Insert

namespace TaskKernel

/-! ## Entries and frames -/

namespace Ram

/-- Two addresses in one frame are one table. -/
theorem entry_of_frameNumber_eq (ram : Ram) {table table' : PhysAddr}
    (h : table'.frameNumber = table.frameNumber) (slot : Fin 512) :
    ram.entry table' slot = ram.entry table slot := by
  rw [entry, entry, h]

theorem entry_setEntry_here (ram : Ram) {table table' : PhysAddr} (slot : Fin 512) (d : Descriptor)
    (h : table'.frameNumber = table.frameNumber) :
    (ram.setEntry table slot d).entry table' slot = d := by
  rw [entry_of_frameNumber_eq _ h, entry_setEntry_self]

theorem entry_setEntry_elsewhere (ram : Ram) {table table' : PhysAddr} {slot slot' : Fin 512}
    (d : Descriptor) (h : ¬ (table'.frameNumber = table.frameNumber ∧ slot' = slot)) :
    (ram.setEntry table slot d).entry table' slot' = ram.entry table' slot' := by
  by_cases hframe : table'.frameNumber = table.frameNumber
  · have hslot : slot' ≠ slot := fun heq => h ⟨hframe, heq⟩
    rw [entry_of_frameNumber_eq _ hframe, entry_of_frameNumber_eq _ hframe,
      entry_setEntry_of_ne ram table d hslot]
  · exact entry_setFrame_of_ne ram _ slot' hframe

end Ram

/-! ## Forests -/

/-- `table` stands at the end of `path` under one of the roots. -/
structure Reached (ram : Ram) (roots : Set PhysAddr) (root : PhysAddr) (path : List (Fin 512))
    (table : PhysAddr) : Prop where
  root_mem : root ∈ roots
  depth : path.length ≤ 3
  found : findTable ram root path = some table

/-- The tables under `roots` stand in different frames, all of them in `held`. -/
structure Forest (ram : Ram) (roots : Set PhysAddr) (held : Set Nat) : Prop where
  held_of_reached {root path table} : Reached ram roots root path table → table.frameNumber ∈ held
  unique {root path table root' path' table'} : Reached ram roots root path table →
    Reached ram roots root' path' table' → table.frameNumber = table'.frameNumber →
    root = root' ∧ path = path'
  inner {root path table} : Reached ram roots root path table → path.length < 3 →
    ∀ slot, (ram.entry table slot).isAbsent = true ∨ (ram.entry table slot).isTable = true

theorem forest_empty (ram : Ram) (held : Set Nat) : Forest ram ∅ held where
  held_of_reached h := absurd h.root_mem (Set.notMem_empty _)
  unique h := absurd h.root_mem (Set.notMem_empty _)
  inner h := absurd h.root_mem (Set.notMem_empty _)

/-- Fewer trees, in more frames. -/
theorem Forest.mono {ram : Ram} {roots roots' : Set PhysAddr} {held held' : Set Nat}
    (h : Forest ram roots held) (hroots : roots' ⊆ roots) (hheld : held ⊆ held') :
    Forest ram roots' held' := by
  have hreached {root path table} (hr : Reached ram roots' root path table) :
      Reached ram roots root path table := ⟨hroots hr.root_mem, hr.depth, hr.found⟩
  exact ⟨fun hr => hheld (h.held_of_reached (hreached hr)),
    fun hr hr' heq => h.unique (hreached hr) (hreached hr') heq,
    fun hr hdepth slot => h.inner (hreached hr) hdepth slot⟩

/-! ## Changes that no walk sees -/

variable {ram ram' : Ram} {roots : Set PhysAddr} {held : Set Nat}

/-- Memories that agree above the last level have the same walks. -/
theorem findTable_congr
    (hsame : ∀ root path table, Reached ram roots root path table → path.length < 3 →
      ∀ slot, ram'.entry table slot = ram.entry table slot)
    {root : PhysAddr} (hroot : root ∈ roots) {path : List (Fin 512)} (hdepth : path.length ≤ 3) :
    findTable ram' root path = findTable ram root path := by
  -- Paths are followed from the root, so the induction takes the last slot off.
  induction path using List.reverseRecOn with
  | nil => rfl
  | append_singleton path slot ih =>
    rw [List.length_append, List.length_singleton] at hdepth
    rw [findTable_append, findTable_append, ih (by omega)]
    cases hfound : findTable ram root path with
    | none => rfl
    | some table =>
      have hreached : Reached ram roots root path table := ⟨hroot, by omega, hfound⟩
      have hentry := hsame root path table hreached (by omega) slot
      rw [Option.bind_some, Option.bind_some, findTable, findTable, hentry]
      rfl

theorem leafAt_congr {root : PhysAddr} {path : List (Fin 512)} {slot : Fin 512}
    (hfind : findTable ram' root path = findTable ram root path)
    (hentry : ∀ table, findTable ram root path = some table →
      ram'.entry table slot = ram.entry table slot) :
    leafAt ram' root path slot = leafAt ram root path slot := by
  rw [leafAt, leafAt, hfind]
  cases hfound : findTable ram root path with
  | none => rfl
  | some table => rw [Option.bind_some, Option.bind_some, hentry table hfound]

namespace Forest

theorem congr (h : Forest ram roots held)
    (hsame : ∀ root path table, Reached ram roots root path table → path.length < 3 →
      ∀ slot, ram'.entry table slot = ram.entry table slot) :
    Forest ram' roots held := by
  have hreached {root path table} (hr : Reached ram' roots root path table) :
      Reached ram roots root path table := by
    refine ⟨hr.root_mem, hr.depth, ?_⟩
    rw [← findTable_congr hsame hr.root_mem hr.depth]
    exact hr.found
  refine ⟨fun hr => h.held_of_reached (hreached hr),
    fun hr hr' heq => h.unique (hreached hr) (hreached hr') heq, ?_⟩
  intro root path table hr hdepth slot
  rw [hsame root path table (hreached hr) hdepth slot]
  exact h.inner (hreached hr) hdepth slot

/-- Clearing a frame that holds no table changes no table. -/
theorem entry_clearFrame_of_free (h : Forest ram roots held) {free : PhysAddr}
    (hfree : free.frameNumber ∉ held) {root path table}
    (hr : Reached ram roots root path table) (slot : Fin 512) :
    (ram.clearFrame free).entry table slot = ram.entry table slot := by
  apply Ram.entry_setFrame_of_ne
  intro heq
  apply hfree
  rw [← heq]
  exact h.held_of_reached hr

theorem clear (h : Forest ram roots held) {free : PhysAddr} (hfree : free.frameNumber ∉ held) :
    Forest (ram.clearFrame free) roots held :=
  h.congr fun _ _ _ hr _ slot => h.entry_clearFrame_of_free hfree hr slot

theorem findTable_clear (h : Forest ram roots held) {free : PhysAddr}
    (hfree : free.frameNumber ∉ held) {root : PhysAddr} (hroot : root ∈ roots)
    {path : List (Fin 512)} (hdepth : path.length ≤ 3) :
    findTable (ram.clearFrame free) root path = findTable ram root path :=
  findTable_congr (fun _ _ _ hr _ slot => h.entry_clearFrame_of_free hfree hr slot) hroot hdepth

theorem leafAt_clear (h : Forest ram roots held) {free : PhysAddr}
    (hfree : free.frameNumber ∉ held) {root : PhysAddr} (hroot : root ∈ roots)
    {path : List (Fin 512)} (hdepth : path.length ≤ 3) (slot : Fin 512) :
    leafAt (ram.clearFrame free) root path slot = leafAt ram root path slot :=
  leafAt_congr (h.findTable_clear hfree hroot hdepth) fun _ hfound =>
    h.entry_clearFrame_of_free hfree ⟨hroot, hdepth, hfound⟩ slot

/-! ## Planting a root -/

theorem plant (h : Forest ram roots held) {seed : PhysAddr} (hfree : seed.frameNumber ∉ held)
    (hempty : ∀ slot, ram.entry seed slot = .absent) :
    Forest ram (insert seed roots) (insert seed.frameNumber held) := by
  -- The new root leads nowhere, so it is reached along the empty path only.
  have hcases {root path table} (hr : Reached ram (insert seed roots) root path table) :
      Reached ram roots root path table ∨ (root = seed ∧ path = [] ∧ table = seed) := by
    rcases hr.root_mem with rfl | hroot
    · right
      have hfound := hr.found
      cases path with
      | nil => exact ⟨rfl, rfl, (Option.some.inj hfound).symm⟩
      | cons slot path =>
        rw [findTable, hempty slot] at hfound
        cases hfound
    · exact Or.inl ⟨hroot, hr.depth, hr.found⟩
  refine ⟨?_, ?_, ?_⟩
  · intro root path table hr
    rcases hcases hr with hold | ⟨-, -, rfl⟩
    · exact Set.mem_insert_of_mem _ (h.held_of_reached hold)
    · exact Set.mem_insert _ _
  · intro root path table root' path' table' hr hr' heq
    rcases hcases hr with hold | ⟨rfl, rfl, rfl⟩
    · rcases hcases hr' with hold' | ⟨rfl, rfl, rfl⟩
      · exact h.unique hold hold' heq
      · exact absurd (heq ▸ h.held_of_reached hold) hfree
    · rcases hcases hr' with hold' | ⟨rfl, rfl, rfl⟩
      · exact absurd (heq ▸ h.held_of_reached hold') hfree
      · exact ⟨rfl, rfl⟩
  · intro root path table hr hdepth slot
    rcases hcases hr with hold | ⟨rfl, rfl, rfl⟩
    · exact h.inner hold hdepth slot
    · left
      rw [hempty slot]
      rfl

/-- Nothing is mapped under a new root. -/
theorem leafAt_plant {seed : PhysAddr} (hempty : ∀ slot, ram.entry seed slot = .absent)
    (path : List (Fin 512)) (slot : Fin 512) : leafAt ram seed path slot = none := by
  cases path with
  | nil =>
    rw [leafAt_of_findTable (by rw [findTable]), hempty slot]
    rfl
  | cons slot' path =>
    rw [leafAt, findTable, hempty slot']
    rfl

/-! ## Growing a table -/

section Grow

variable {root table child : PhysAddr} {path : List (Fin 512)} {slot : Fin 512}

/-- What it takes to put the table `child` below an absent entry of `table`. -/
structure Growth (ram : Ram) (roots : Set PhysAddr) (held : Set Nat) (root : PhysAddr)
    (path : List (Fin 512)) (table : PhysAddr) (slot : Fin 512) (child : PhysAddr) : Prop where
  forest : Forest ram roots held
  reached : Reached ram roots root path table
  depth : path.length < 3
  vacant : (ram.entry table slot).isAbsent = true
  free : child.frameNumber ∉ held
  empty : ∀ slot, ram.entry child slot = .absent
  address : (Descriptor.make child .intermediate).address = child

namespace Growth

theorem isTable_link (child : PhysAddr) : (Descriptor.make child .intermediate).isTable = true :=
  Descriptor.isTable_make (by decide)

theorem frameNumber_ne (g : Growth ram roots held root path table slot child) {root' path' table'}
    (hr : Reached ram roots root' path' table') : child.frameNumber ≠ table'.frameNumber :=
  fun heq => g.free (heq ▸ g.forest.held_of_reached hr)

/-- The new table adds one walk and takes none away. -/
theorem findTable_iff (g : Growth ram roots held root path table slot child) {root' : PhysAddr}
    (hroot : root' ∈ roots) {path' : List (Fin 512)} (hdepth : path'.length ≤ 3)
    {table' : PhysAddr} :
    findTable (ram.setEntry table slot (.make child .intermediate)) root' path' = some table' ↔
      findTable ram root' path' = some table' ∨
        (root' = root ∧ path' = path ++ [slot] ∧ table' = child) := by
  have hchild := g.frameNumber_ne g.reached
  -- On the path, last slot first: a walk is new from the new table on.
  induction path' using List.reverseRecOn generalizing table' with
  | nil => simp [findTable]
  | append_singleton path' slot' ih =>
    rw [List.length_append, List.length_singleton] at hdepth
    rw [findTable_snoc_iff, findTable_snoc_iff]
    constructor
    · rintro ⟨parent, hparent, htable, haddress⟩
      rcases (ih (by omega)).1 hparent with hold | ⟨rfl, rfl, rfl⟩
      · by_cases hhere : parent.frameNumber = table.frameNumber ∧ slot' = slot
        · obtain ⟨hframe, rfl⟩ := hhere
          have hreached : Reached ram roots root' path' parent := ⟨hroot, by omega, hold⟩
          obtain ⟨rfl, rfl⟩ := g.forest.unique hreached g.reached hframe
          rw [ram.entry_setEntry_here slot' _ hframe, g.address] at haddress
          exact Or.inr ⟨rfl, rfl, haddress.symm⟩
        · rw [ram.entry_setEntry_elsewhere _ hhere] at htable haddress
          exact Or.inl ⟨parent, hold, htable, haddress⟩
      · -- The new table is empty, so no walk goes on from it.
        rw [ram.entry_setEntry_elsewhere _ (fun hhere => hchild hhere.1), g.empty slot'] at htable
        cases htable
    · rintro (⟨parent, hold, htable, haddress⟩ | ⟨rfl, hpath, rfl⟩)
      · refine ⟨parent, (ih (by omega)).2 (Or.inl hold), ?_⟩
        have hhere : ¬ (parent.frameNumber = table.frameNumber ∧ slot' = slot) := by
          rintro ⟨hframe, rfl⟩
          rw [ram.entry_of_frameNumber_eq hframe] at htable
          have habsent := Descriptor.not_isAbsent_of_isTable htable
          rw [g.vacant] at habsent
          cases habsent
        rw [ram.entry_setEntry_elsewhere _ hhere]
        exact ⟨htable, haddress⟩
      · obtain ⟨rfl, hslot⟩ := List.append_inj' hpath rfl
        cases hslot
        refine ⟨table, (ih (by omega)).2 (Or.inl g.reached.found), ?_⟩
        rw [ram.entry_setEntry_self]
        exact ⟨isTable_link _, g.address⟩

theorem reached_cases (g : Growth ram roots held root path table slot child) {root' path' table'}
    (hr : Reached (ram.setEntry table slot (.make child .intermediate)) roots root' path' table') :
    Reached ram roots root' path' table' ∨
      (root' = root ∧ path' = path ++ [slot] ∧ table' = child) := by
  rcases (g.findTable_iff hr.root_mem hr.depth).1 hr.found with hold | hnew
  · exact Or.inl ⟨hr.root_mem, hr.depth, hold⟩
  · exact Or.inr hnew

protected theorem grow (g : Growth ram roots held root path table slot child) :
    Forest (ram.setEntry table slot (.make child .intermediate)) roots
      (insert child.frameNumber held) := by
  refine ⟨?_, ?_, ?_⟩
  · intro root' path' table' hr
    rcases g.reached_cases hr with hold | ⟨-, -, rfl⟩
    · exact Set.mem_insert_of_mem _ (g.forest.held_of_reached hold)
    · exact Set.mem_insert _ _
  · intro root₁ path₁ table₁ root₂ path₂ table₂ hr₁ hr₂ heq
    rcases g.reached_cases hr₁ with hold₁ | ⟨rfl, rfl, rfl⟩
    · rcases g.reached_cases hr₂ with hold₂ | ⟨rfl, rfl, rfl⟩
      · exact g.forest.unique hold₁ hold₂ heq
      · exact absurd heq.symm (g.frameNumber_ne hold₁)
    · rcases g.reached_cases hr₂ with hold₂ | ⟨rfl, rfl, rfl⟩
      · exact absurd heq (g.frameNumber_ne hold₂)
      · exact ⟨rfl, rfl⟩
  · intro root' path' table' hr hdepth slot'
    by_cases hhere : table'.frameNumber = table.frameNumber ∧ slot' = slot
    · obtain ⟨hframe, rfl⟩ := hhere
      right
      rw [ram.entry_setEntry_here slot' _ hframe]
      exact isTable_link child
    · rw [ram.entry_setEntry_elsewhere _ hhere]
      rcases g.reached_cases hr with hold | ⟨rfl, rfl, rfl⟩
      · exact g.forest.inner hold hdepth slot'
      · left
        rw [g.empty slot']
        rfl

/-- A new table is empty, so no leaf comes or goes. -/
theorem leafAt_eq (g : Growth ram roots held root path table slot child) {root' : PhysAddr}
    (hroot : root' ∈ roots) {path' : List (Fin 512)} (hdepth : path'.length = 3)
    (slot' : Fin 512) :
    leafAt (ram.setEntry table slot (.make child .intermediate)) root' path' slot' =
      leafAt ram root' path' slot' := by
  cases hold : findTable ram root' path' with
  | some table' =>
    have hnew := (g.findTable_iff hroot (by omega)).2 (Or.inl hold)
    have hreached : Reached ram roots root' path' table' := ⟨hroot, by omega, hold⟩
    have hhere : ¬ (table'.frameNumber = table.frameNumber ∧ slot' = slot) := by
      -- The entry that changed lies above the last level.
      rintro ⟨hframe, -⟩
      obtain ⟨-, rfl⟩ := g.forest.unique hreached g.reached hframe
      have hlt := g.depth
      omega
    rw [leafAt_of_findTable hnew, leafAt_of_findTable hold, ram.entry_setEntry_elsewhere _ hhere]
  | none =>
    have hnone : leafAt ram root' path' slot' = none := by
      rw [leafAt, hold]
      rfl
    rw [hnone]
    cases hnew : findTable (ram.setEntry table slot (.make child .intermediate)) root' path' with
    | none =>
      rw [leafAt, hnew]
      rfl
    | some table' =>
      rcases (g.findTable_iff hroot (by omega)).1 hnew with hfound | ⟨rfl, rfl, rfl⟩
      · rw [hold] at hfound
        cases hfound
      · rw [leafAt_of_findTable hnew,
          ram.entry_setEntry_elsewhere _ (fun hhere => g.frameNumber_ne g.reached hhere.1),
          g.empty slot']
        rfl

end Growth

end Grow

/-! ## Writing a leaf -/

section Write

variable {root table : PhysAddr} {path : List (Fin 512)}

/-- Above the last level a leaf write changes nothing. -/
theorem entry_setEntry_leaf (h : Forest ram roots held) (hr : Reached ram roots root path table)
    (hdepth : path.length = 3) (slot : Fin 512) (d : Descriptor) {root' path' table'}
    (hr' : Reached ram roots root' path' table') (hdepth' : path'.length < 3) (slot' : Fin 512) :
    (ram.setEntry table slot d).entry table' slot' = ram.entry table' slot' := by
  apply ram.entry_setEntry_elsewhere
  rintro ⟨hframe, -⟩
  obtain ⟨-, rfl⟩ := h.unique hr' hr hframe
  omega

theorem write (h : Forest ram roots held) (hr : Reached ram roots root path table)
    (hdepth : path.length = 3) (slot : Fin 512) (d : Descriptor) :
    Forest (ram.setEntry table slot d) roots held :=
  h.congr fun _ _ _ hr' hdepth' slot' => h.entry_setEntry_leaf hr hdepth slot d hr' hdepth' slot'

/-- A leaf write takes no walk to another table. -/
theorem findTable_write (h : Forest ram roots held) (hr : Reached ram roots root path table)
    (hdepth : path.length = 3) (slot : Fin 512) (d : Descriptor) {root' : PhysAddr}
    (hroot : root' ∈ roots) {path' : List (Fin 512)} (hdepth' : path'.length ≤ 3) :
    findTable (ram.setEntry table slot d) root' path' = findTable ram root' path' :=
  findTable_congr (fun _ _ _ hr' hlt slot' => h.entry_setEntry_leaf hr hdepth slot d hr' hlt slot')
    hroot hdepth'

/-- One leaf is the new descriptor and all others are as they were. -/
theorem leafAt_write (h : Forest ram roots held) (hr : Reached ram roots root path table)
    (hdepth : path.length = 3) (slot : Fin 512) {d : Descriptor} (hd : d.isAbsent = false)
    {root' : PhysAddr} (hroot : root' ∈ roots) {path' : List (Fin 512)}
    (hdepth' : path'.length = 3) (slot' : Fin 512) :
    leafAt (ram.setEntry table slot d) root' path' slot' =
      if root' = root ∧ path' = path ∧ slot' = slot then some d
      else leafAt ram root' path' slot' := by
  have hfind := h.findTable_write hr hdepth slot d hroot hdepth'.le
  split
  · next hhere =>
    obtain ⟨rfl, rfl, rfl⟩ := hhere
    rw [hr.found] at hfind
    rw [leafAt_of_findTable hfind, ram.entry_setEntry_self, hd]
    rfl
  · next hhere =>
    apply leafAt_congr hfind
    -- Another walk to the same entry would be the same walk.
    intro table' hfound
    apply ram.entry_setEntry_elsewhere
    rintro ⟨hframe, hslot⟩
    obtain ⟨hroot', hpath⟩ := h.unique ⟨hroot, by omega, hfound⟩ hr hframe
    exact hhere ⟨hroot', hpath, hslot⟩

end Write

end Forest

end TaskKernel
