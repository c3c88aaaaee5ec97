/-
  TaskKernel.Proofs.PageTable.Edits

  The single changes that a call makes to the tables of a space. A table is put where none
  was, or a page is written to a last-level table; nothing else ever happens, whatever the
  call asks for and however it ends. How many tables there are, which frames they stand in
  and what their entries look like is read off these changes.
-/
import TaskKernel.Proofs.PageTable.Refinement
import Mathlib.Data.Set.Card

namespace TaskKernel

/-! ## The tables of a space -/

/-- The paths under `root` at whose end a table stands. -/
def tablePaths (ram : Ram) (root : PhysAddr) : Set (List (Fin 512)) :=
  {path | path.length ≤ 3 ∧ ∃ table, findTable ram root path = some table}

/-- Numbers of the frames that the tables under `root` stand in. -/
def tableFrames (ram : Ram) (root : PhysAddr) : Set Nat :=
  {n | ∃ path table, path.length ≤ 3 ∧ findTable ram root path = some table ∧
    table.frameNumber = n}

/-- The walks under `root`, each as its path and the table at its end. -/
def walks (ram : Ram) (root : PhysAddr) : Set (List (Fin 512) × PhysAddr) :=
  {walk | walk.1.length ≤ 3 ∧ findTable ram root walk.1 = some walk.2}

theorem image_fst_walks (ram : Ram) (root : PhysAddr) :
    Prod.fst '' walks ram root = tablePaths ram root := by
  ext path
  constructor
  · rintro ⟨⟨path, table⟩, ⟨hdepth, hfound⟩, rfl⟩
    exact ⟨hdepth, table, hfound⟩
  · rintro ⟨hdepth, table, hfound⟩
    exact ⟨(path, table), ⟨hdepth, hfound⟩, rfl⟩

theorem image_frameNumber_walks (ram : Ram) (root : PhysAddr) :
    (fun walk => walk.2.frameNumber) '' walks ram root = tableFrames ram root := by
  ext n
  constructor
  · rintro ⟨⟨path, table⟩, ⟨hdepth, hfound⟩, rfl⟩
    exact ⟨path, table, hdepth, hfound, rfl⟩
  · rintro ⟨path, table, hdepth, hfound, rfl⟩
    exact ⟨(path, table), ⟨hdepth, hfound⟩, rfl⟩

theorem walks_congr {ram ram' : Ram} {root : PhysAddr}
    (h : ∀ path : List (Fin 512), path.length ≤ 3 →
      findTable ram' root path = findTable ram root path) :
    walks ram' root = walks ram root := by
  ext walk
  refine and_congr_right fun hdepth => ?_
  rw [h walk.1 hdepth]

theorem tablePaths_congr {ram ram' : Ram} {root : PhysAddr}
    (h : ∀ path : List (Fin 512), path.length ≤ 3 →
      findTable ram' root path = findTable ram root path) :
    tablePaths ram' root = tablePaths ram root := by
  rw [← image_fst_walks, walks_congr h, image_fst_walks]

theorem tableFrames_congr {ram ram' : Ram} {root : PhysAddr}
    (h : ∀ path : List (Fin 512), path.length ≤ 3 →
      findTable ram' root path = findTable ram root path) :
    tableFrames ram' root = tableFrames ram root := by
  rw [← image_frameNumber_walks, walks_congr h, image_frameNumber_walks]

/-- No walk goes through an absent entry. -/
theorem notMem_tablePaths {ram : Ram} {root table : PhysAddr} {path : List (Fin 512)}
    {slot : Fin 512} (found : findTable ram root path = some table)
    (vacant : (ram.entry table slot).isAbsent = true) : path ++ [slot] ∉ tablePaths ram root := by
  rintro ⟨-, child, hchild⟩
  obtain ⟨parent, hparent, htable, -⟩ := findTable_snoc_iff.1 hchild
  rw [found] at hparent
  cases hparent
  rw [Descriptor.not_isAbsent_of_isTable htable] at vacant
  cases vacant

/-! ## Edits -/

variable {F : Type} [FrameSource F]

/-- `Edits L root flags mem added mem'` says that the way from `mem` to `mem'` is made of
    refused requests for frames, of tables that are put at the paths `added` under `root`, in
    this order, and of pages that are written with `flags`. -/
inductive Edits (L : FrameLedger F) (root : PhysAddr) (flags : Flags) :
    Memory F → List (List (Fin 512)) → Memory F → Prop
  | nil (mem : Memory F) : Edits L root flags mem [] mem
  | refused {mem mem₁ mem' : Memory F} {added : List (List (Fin 512))}
      (ram : mem₁.ram = mem.ram) (valid : L.valid mem₁.frames)
      (held : L.held mem₁.frames = L.held mem.frames) (rest : Edits L root flags mem₁ added mem') :
      Edits L root flags mem added mem'
  | linked {mem mem₁ mem' : Memory F} {added : List (List (Fin 512))} {table child : PhysAddr}
      {path : List (Fin 512)} {slot : Fin 512} (grant : TableGrant L mem mem₁ child)
      (found : findTable mem.ram root path = some table) (depth : path.length < 3)
      (vacant : (mem.ram.entry table slot).isAbsent = true)
      (rest : Edits L root flags (mem₁.mapRam (·.setEntry table slot (.make child .intermediate)))
        added mem') :
      Edits L root flags mem ((path ++ [slot]) :: added) mem'
  | written {mem mem' : Memory F} {added : List (List (Fin 512))} {table : PhysAddr}
      {path : List (Fin 512)} (found : findTable mem.ram root path = some table)
      (depth : path.length = 3) (slot : Fin 512) (pa : PhysAddr)
      (rest : Edits L root flags
        (mem.mapRam (·.setEntry table slot (.make pa (flags ||| .page ||| .accessed))))
        added mem') :
      Edits L root flags mem added mem'

theorem Edits.trans {L : FrameLedger F} {root : PhysAddr} {flags : Flags}
    {mem mem₁ mem' : Memory F} {added added' : List (List (Fin 512))}
    (h : Edits L root flags mem added mem₁) (h' : Edits L root flags mem₁ added' mem') :
    Edits L root flags mem (added ++ added') mem' := by
  induction h with
  | nil => exact h'
  | refused ram valid held rest ih => exact .refused ram valid held (ih h')
  | linked grant found depth vacant rest ih => exact .linked grant found depth vacant (ih h')
  | written found depth slot pa rest ih => exact .written found depth slot pa (ih h')

/-! ## What edits come to -/

namespace FrameLedger.Carries

variable {L : FrameLedger F} {mem mem₁ : Memory F} {roots : Set PhysAddr}
  {root table child : PhysAddr} {path : List (Fin 512)} {slot : Fin 512}

/-- A new table is found at its own path, and no other walk has changed. -/
theorem findTable_linked (h : L.Carries mem roots) (grant : TableGrant L mem mem₁ child)
    (hroot : root ∈ roots) (found : findTable mem.ram root path = some table)
    (depth : path.length < 3) (vacant : (mem.ram.entry table slot).isAbsent = true)
    {path' : List (Fin 512)} (hdepth : path'.length ≤ 3) {table' : PhysAddr} :
    findTable (mem₁.ram.setEntry table slot (.make child .intermediate)) root path' = some table' ↔
      findTable mem.ram root path' = some table' ∨ (path' = path ++ [slot] ∧ table' = child) := by
  have growth := h.growth grant ⟨hroot, by omega, found⟩ depth vacant
  rw [growth.findTable_iff hroot hdepth, grant.ram,
    h.forest.findTable_clear grant.free hroot hdepth]
  simp only [true_and]

theorem walks_linked (h : L.Carries mem roots) (grant : TableGrant L mem mem₁ child)
    (hroot : root ∈ roots) (found : findTable mem.ram root path = some table)
    (depth : path.length < 3) (vacant : (mem.ram.entry table slot).isAbsent = true) :
    walks (mem₁.ram.setEntry table slot (.make child .intermediate)) root =
      insert (path ++ [slot], child) (walks mem.ram root) := by
  have hlength : (path ++ [slot]).length ≤ 3 := by
    rw [List.length_append, List.length_singleton]
    exact depth
  ext ⟨path', table'⟩
  constructor
  · rintro ⟨hdepth, hfound⟩
    rcases (h.findTable_linked grant hroot found depth vacant hdepth).1 hfound with
      hold | ⟨rfl, rfl⟩
    · exact Or.inr ⟨hdepth, hold⟩
    · exact Set.mem_insert _ _
  · rintro (heq | ⟨hdepth, hfound⟩)
    · cases heq
      exact ⟨hlength, (h.findTable_linked grant hroot found depth vacant hlength).2
        (Or.inr ⟨rfl, rfl⟩)⟩
    · exact ⟨hdepth, (h.findTable_linked grant hroot found depth vacant hdepth).2 (Or.inl hfound)⟩

theorem tablePaths_linked (h : L.Carries mem roots) (grant : TableGrant L mem mem₁ child)
    (hroot : root ∈ roots) (found : findTable mem.ram root path = some table)
    (depth : path.length < 3) (vacant : (mem.ram.entry table slot).isAbsent = true) :
    tablePaths (mem₁.ram.setEntry table slot (.make child .intermediate)) root =
      insert (path ++ [slot]) (tablePaths mem.ram root) := by
  rw [← image_fst_walks, h.walks_linked grant hroot found depth vacant, Set.image_insert_eq,
    image_fst_walks]

theorem tableFrames_linked (h : L.Carries mem roots) (grant : TableGrant L mem mem₁ child)
    (hroot : root ∈ roots) (found : findTable mem.ram root path = some table)
    (depth : path.length < 3) (vacant : (mem.ram.entry table slot).isAbsent = true) :
    tableFrames (mem₁.ram.setEntry table slot (.make child .intermediate)) root =
      insert child.frameNumber (tableFrames mem.ram root) := by
  rw [← image_frameNumber_walks, h.walks_linked grant hroot found depth vacant,
    Set.image_insert_eq, image_frameNumber_walks]

end FrameLedger.Carries

/-- What edits come to: the tables at `added` are new, each stands in a frame that was taken
    for it, and no other frame was taken. -/
structure Extended (L : FrameLedger F) (roots : Set PhysAddr) (root : PhysAddr) (mem : Memory F)
    (added : List (List (Fin 512))) (mem' : Memory F) : Prop where
  carries : L.Carries mem' roots
  paths : tablePaths mem'.ram root = tablePaths mem.ram root ∪ {path | path ∈ added}
  fresh : ∀ path ∈ added, path ∉ tablePaths mem.ram root
  nodup : added.Nodup
  held : L.held mem.frames ⊆ L.held mem'.frames
  frames : tableFrames mem'.ram root =
    tableFrames mem.ram root ∪ (L.held mem'.frames \ L.held mem.frames)

section

variable {L : FrameLedger F} {roots : Set PhysAddr} {root : PhysAddr} {flags : Flags}
  {mem mem' : Memory F} {added : List (List (Fin 512))}

theorem Edits.extended (h : L.Carries mem roots) (hroot : root ∈ roots)
    (edits : Edits L root flags mem added mem') : Extended L roots root mem added mem' := by
  induction edits with
  | nil mem => exact ⟨h, by simp, by simp, .nil, Set.Subset.refl _, by simp⟩
  | @refused mem mem₁ mem' added ram valid held rest ih =>
    obtain ⟨hcarries, hpaths, hfresh, hnodup, hheld, hframes⟩ := ih (h.of_ram_eq ram valid held)
    rw [ram] at hpaths hfresh hframes
    rw [held] at hheld hframes
    exact ⟨hcarries, hpaths, hfresh, hnodup, hheld, hframes⟩
  | @linked mem mem₁ mem' added table child path slot grant found depth vacant rest ih =>
    obtain ⟨hcarries, -⟩ := h.table_linked grant ⟨hroot, by omega, found⟩ depth vacant
    obtain ⟨hcarries', hpaths, hfresh, hnodup, hheld, hframes⟩ := ih hcarries
    rw [Memory.mapRam_ram, h.tablePaths_linked grant hroot found depth vacant] at hpaths hfresh
    rw [Memory.mapRam_ram, h.tableFrames_linked grant hroot found depth vacant,
      Memory.mapRam_frames, grant.held] at hframes
    rw [Memory.mapRam_frames, grant.held] at hheld
    refine ⟨hcarries', ?_, ?_, ?_, (Set.subset_insert _ _).trans hheld, ?_⟩
    · rw [hpaths]
      ext path'
      simp only [Set.mem_union, Set.mem_insert_iff, Set.mem_ofPred_eq, List.mem_cons]
      tauto
    · intro path' hmem
      rcases List.mem_cons.1 hmem with rfl | hmem
      · exact notMem_tablePaths found vacant
      · exact fun hold => hfresh path' hmem (Or.inr hold)
    · exact List.nodup_cons.2 ⟨fun hmem => hfresh _ hmem (Set.mem_insert _ _), hnodup⟩
    · -- The frame of the new table is the first of those taken since.
      have hchild := hheld (Set.mem_insert _ _)
      have hfree := grant.free
      rw [hframes]
      ext n
      simp only [Set.mem_union, Set.mem_insert_iff, Set.mem_sdiff]
      by_cases hn : n = child.frameNumber
      · subst hn
        tauto
      · tauto
  | @written mem mem' added table path found depth slot pa rest ih =>
    have hreached : Reached mem.ram roots root path table := ⟨hroot, depth.le, found⟩
    have hsame : ∀ path' : List (Fin 512), path'.length ≤ 3 → _ := fun path' hdepth' =>
      h.forest.findTable_write hreached depth slot (.make pa (flags ||| .page ||| .accessed)) hroot
        hdepth'
    obtain ⟨hcarries, hpaths, hfresh, hnodup, hheld, hframes⟩ :=
      ih ⟨h.valid, h.forest.write hreached depth slot _⟩
    rw [Memory.mapRam_ram, tablePaths_congr hsame] at hpaths hfresh
    rw [Memory.mapRam_ram, tableFrames_congr hsame] at hframes
    exact ⟨hcarries, hpaths, hfresh, hnodup, hheld, hframes⟩

/-- Every table of a space that is extended is counted once. -/
theorem Extended.encard_tablePaths (h : Extended L roots root mem added mem') :
    (tablePaths mem'.ram root).encard = (tablePaths mem.ram root).encard + added.length := by
  have hdisjoint : Disjoint (tablePaths mem.ram root) {path | path ∈ added} :=
    Set.disjoint_right.2 h.fresh
  have hadded : {path | path ∈ added} = (added.toFinset : Set (List (Fin 512))) := by
    ext path
    simp
  rw [h.paths, Set.encard_union_eq hdisjoint, hadded, Set.encard_coe_eq_coe_finsetCard,
    List.toFinset_card_of_nodup h.nodup]

end

/-! ## Walks and calls as edits -/

namespace FrameLedger.Carries

variable {L : FrameLedger F} {roots : Set PhysAddr} {mem : Memory F}

/-- A walk puts tables on its own path only, and counts them. -/
theorem reachTable_edits (h : L.Carries mem roots) {root : PhysAddr} (hroot : root ∈ roots)
    (flags : Flags) (page : VirtAddr) (path rest : List (Fin 512)) {table : PhysAddr}
    (hfound : findTable mem.ram root path = some table) (hlength : path.length + rest.length = 3) :
    ∃ added, Edits L root flags mem added (reachTable page mem table rest).memory ∧
      (reachTable page mem table rest).created = added.length ∧
      ∀ p ∈ added, p <+: path ++ rest := by
  -- As the walk itself: each step moves one slot from `rest` to the end of `path`.
  induction rest generalizing mem path table with
  | nil => exact ⟨[], .nil mem, rfl, fun p hp => absurd hp List.not_mem_nil⟩
  | cons slot rest ih =>
    rw [List.length_cons] at hlength
    have hreached : Reached mem.ram roots root path table := ⟨hroot, by omega, hfound⟩
    have hpath : path ++ slot :: rest = (path ++ [slot]) ++ rest := by simp
    have hlength' : (path ++ [slot]).length + rest.length = 3 := by
      rw [List.length_append, List.length_singleton]
      omega
    rw [reachTable]
    dsimp only
    split
    · next hvacant =>
      rcases allocateTable_cases L mem h.valid with
        ⟨mem', heq, hram, hvalid, hheld⟩ | ⟨child, mem', heq, grant⟩
      · rw [heq]
        exact ⟨[], .refused hram hvalid hheld (.nil _), rfl, fun p hp => absurd hp List.not_mem_nil⟩
      · rw [heq]
        dsimp only
        obtain ⟨hcarries, -, hnew⟩ := h.table_linked grant hreached (by omega) hvacant
        obtain ⟨added, hedits, hcreated, halong⟩ := ih hcarries (path ++ [slot]) hnew hlength'
        rw [grant.address, hpath]
        refine ⟨(path ++ [slot]) :: added, .linked grant hfound (by omega) hvacant hedits, ?_, ?_⟩
        · rw [hcreated, List.length_cons]
        · intro p hp
          rcases List.mem_cons.1 hp with rfl | hp
          · exact List.prefix_append _ rest
          · exact halong p hp
    · next hpresent =>
      have htable : (mem.ram.entry table slot).isTable = true :=
        (h.forest.inner hreached (by omega) slot).resolve_left hpresent
      rw [if_pos htable, hpath]
      exact ih h (path ++ [slot]) (findTable_snoc_iff.2 ⟨table, hfound, htable, rfl⟩) hlength'

end FrameLedger.Carries

/-- How mapping `count` pages from `va` on ends. The new tables are counted and lie on the
    way to these pages; unless frames ran out there is a last-level table for each page. -/
structure PagesEdited (L : FrameLedger F) (flags : Flags) (space : AddressSpace) (mem : Memory F)
    (va : VirtAddr) (count : Nat) (added : List (List (Fin 512))) (result : Except MapError Unit)
    (space' : AddressSpace) (mem' : Memory F) : Prop where
  edits : Edits L space.root flags mem added mem'
  space_eq : space' = ⟨space.root, space.tables + added.length⟩
  needed : ∀ path ∈ added, ∃ i < count, path <+: (va.plus (i * pageSize)).tablePath
  outcome : (result = .ok () ∧
      ∀ i < count, (va.plus (i * pageSize)).tablePath ∈ tablePaths mem'.ram space.root) ∨
    result = .error .outOfMemory

namespace FrameLedger.Carries

variable {L : FrameLedger F} {roots : Set PhysAddr} {mem : Memory F}

theorem mapPages_edits (h : L.Carries mem roots) (flags : Flags) (space : AddressSpace)
    (hspace : space.root ∈ roots) (va : VirtAddr) (pa : PhysAddr) (count : Nat) :
    ∃ added result space' mem', space.mapPages flags mem va pa count = (result, space', mem') ∧
      PagesEdited L flags space mem va count added result space' mem' := by
  -- On the pages, each with the memory that the one before it left.
  induction count generalizing mem space va pa with
  | zero =>
    refine ⟨[], .ok (), space, mem, rfl, .nil mem, rfl, ?_, Or.inl ⟨rfl, ?_⟩⟩
    · exact fun path hpath => absurd hpath List.not_mem_nil
    · exact fun i hi => absurd hi (Nat.not_lt_zero i)
  | succ count ih =>
    have walked := h.reachTable_walked hspace va [] va.tablePath rfl rfl
    obtain ⟨added, hedits, hcreated, halong⟩ :=
      h.reachTable_edits hspace flags va [] va.tablePath rfl rfl
    rw [List.nil_append] at walked halong
    have hfirst : va.plus (0 * pageSize) = va := by rw [Nat.zero_mul, Address.plus_zero]
    have hnext (i : Nat) :
        (va.plus pageSize).plus (i * pageSize) = va.plus ((i + 1) * pageSize) := by
      rw [Address.plus_plus, Nat.succ_mul, Nat.add_comm]
    rw [AddressSpace.mapPages]
    dsimp only
    rw [hcreated]
    rcases walked.arrives with ⟨table, hresult, hfound⟩ | hresult
    · rw [hresult]
      dsimp only
      generalize reachTable va mem space.root va.tablePath = walk at walked hedits hfound
      have hcarries := walked.carries.write_leaf hspace hfound
        (.make pa (flags ||| .page ||| .accessed))
      have hwritten : Edits L space.root flags walk.memory [] (walk.memory.mapRam
          (·.setEntry table va.leafSlot (.make pa (flags ||| .page ||| .accessed)))) :=
        .written hfound rfl va.leafSlot pa (.nil _)
      obtain ⟨added', result, space', mem', heq, rest⟩ :=
        ih hcarries ⟨space.root, space.tables + added.length⟩ hspace (va.plus pageSize)
          (pa.plus pageSize)
      refine ⟨added ++ added', result, space', mem', heq, ?_, ?_, ?_, ?_⟩
      · exact hedits.trans (hwritten.trans rest.edits)
      · rw [rest.space_eq, List.length_append, Nat.add_assoc]
      · intro path hpath
        rcases List.mem_append.1 hpath with hpath | hpath
        · exact ⟨0, Nat.succ_pos count, by rw [hfirst]; exact halong path hpath⟩
        · obtain ⟨i, hi, hle⟩ := rest.needed path hpath
          exact ⟨i + 1, Nat.succ_lt_succ hi, by rw [← hnext]; exact hle⟩
      · refine rest.outcome.imp_left (And.imp_right fun hpages i hi => ?_)
        cases i with
        | zero =>
          -- What the first page needs is there when the others are mapped.
          have hpaths := (rest.edits.extended hcarries hspace).paths
          have hreached : Reached walk.memory.ram roots space.root va.tablePath table :=
            ⟨hspace, Nat.le_refl 3, hfound⟩
          have hsame := walked.carries.forest.findTable_write hreached rfl va.leafSlot
            (.make pa (flags ||| .page ||| .accessed)) hspace hreached.depth
          rw [hfirst, hpaths]
          exact Or.inl ⟨hreached.depth, table, hsame.trans hfound⟩
        | succ i =>
          rw [← hnext]
          exact hpages i (Nat.lt_of_succ_lt_succ hi)
    · rw [hresult]
      refine ⟨added, _, _, _, rfl, hedits, rfl, ?_, Or.inr rfl⟩
      exact fun path hpath => ⟨0, Nat.succ_pos count, by rw [hfirst]; exact halong path hpath⟩

end FrameLedger.Carries

end TaskKernel
