/-
  TaskKernel.Proofs.PageTable.SpaceRuns

  The life of one address space. It is made, calls map ranges in it, and in between others
  use the rest of memory as they like, as long as they write to no frame that was handed out
  for it. At every point its tables are in order, stand in exactly these frames and are as
  many as its count says.
-/
import TaskKernel.Proofs.PageTable.Edits

namespace TaskKernel

variable {F : Type} [FrameSource F]

/-! ## Runs -/

/-- `AddressSpace.Run L log taken space mem` says that `space` was made and then served the
    calls of `log`, the latest first and each with its result, in memory that is now `mem`;
    `taken` are the frames that were handed out on the way. The space that a call names plays
    no part. -/
inductive AddressSpace.Run (L : FrameLedger F) :
    List (MapCall × Except MapError Unit) → Set Nat → AddressSpace → Memory F → Prop
  | new {mem mem' : Memory F} {space : AddressSpace} (valid : L.valid mem.frames)
      (made : AddressSpace.new mem = (.ok space, mem')) :
      Run L [] (L.held mem'.frames \ L.held mem.frames) space mem'
  | map {log : List (MapCall × Except MapError Unit)} {taken : Set Nat}
      {space space' : AddressSpace} {mem mem' : Memory F} (run : Run L log taken space mem)
      (c : MapCall) {result : Except MapError Unit}
      (served : space.map mem c.va c.pa c.size c.flags = (result, space', mem')) :
      Run L ((c, result) :: log) (taken ∪ (L.held mem'.frames \ L.held mem.frames)) space' mem'
  | meanwhile {log : List (MapCall × Except MapError Unit)} {taken : Set Nat}
      {space : AddressSpace} {mem mem' : Memory F} (run : Run L log taken space mem)
      (valid : L.valid mem'.frames) (held : taken ⊆ L.held mem'.frames)
      (same : ∀ n ∈ taken, mem'.ram.frame n = mem.ram.frame n) : Run L log taken space mem'

/-! ## How a call ends -/

/-- The ways a call can end, each with the space and the memory that it leaves. -/
inductive MapEnd (L : FrameLedger F) (space : AddressSpace) (mem : Memory F) (c : MapCall) :
    Except MapError Unit → AddressSpace → Memory F → Prop
  | refused (unusable : c.flags.memoryType = none) :
      MapEnd L space mem c (.error .invalidAttributes) space mem
  | nothing (size : c.size = 0) : MapEnd L space mem c (.ok ()) space mem
  | pages (usable : c.flags.memoryType.isSome) (size : c.size ≠ 0)
      {added : List (List (Fin 512))} {result : Except MapError Unit} {space' : AddressSpace}
      {mem' : Memory F}
      (edited : PagesEdited L c.flags space mem c.va.pageDown
        (AddressSpace.pagesTouched c.va c.size) added result space' mem') :
      MapEnd L space mem c result space' mem'

section

variable {L : FrameLedger F} {roots : Set PhysAddr} {space space' : AddressSpace}
  {mem mem' : Memory F} {c : MapCall} {result : Except MapError Unit}

theorem FrameLedger.Carries.map_end (h : L.Carries mem roots) (hspace : space.root ∈ roots)
    (served : space.map mem c.va c.pa c.size c.flags = (result, space', mem')) :
    MapEnd L space mem c result space' mem' := by
  rw [AddressSpace.map] at served
  split at served
  · next hnone =>
    cases served
    exact .refused (Option.isNone_iff_eq_none.1 hnone)
  · next hsome =>
    split at served
    · next hsize =>
      cases served
      exact .nothing hsize
    · next hsize =>
      obtain ⟨added, result', space₁, mem₁, heq, edited⟩ :=
        h.mapPages_edits c.flags space hspace c.va.pageDown c.pa.pageDown
          (AddressSpace.pagesTouched c.va c.size)
      rw [heq] at served
      cases served
      exact .pages (Option.isSome_iff_ne_none.2 fun heq => hsome (by rw [heq]; rfl)) hsize edited

/-- A call that maps nothing takes nothing. -/
theorem AddressSpace.map_unchanged (space : AddressSpace) (mem : Memory F)
    (h : c.size = 0 ∨ c.flags.memoryType = none) :
    (space.map mem c.va c.pa c.size c.flags).2 = (space, mem) := by
  rw [AddressSpace.map]
  split
  · rfl
  · next hsome =>
    have hsize : c.size = 0 := h.resolve_right fun heq => hsome (by rw [heq]; rfl)
    rw [if_pos hsize]

end

/-! ## What a run keeps -/

/-- The tables of a space are in order, stand in the frames that were taken for them, and are
    as many as the space says. -/
structure AddressSpace.Kept (L : FrameLedger F) (taken : Set Nat) (space : AddressSpace)
    (mem : Memory F) : Prop where
  carries : L.Carries mem {space.root}
  frames : tableFrames mem.ram space.root = taken
  tables : (tablePaths mem.ram space.root).encard = space.tables

section

variable {ram : Ram} {root : PhysAddr}

/-- Under an empty root there is no other table. -/
theorem findTable_of_empty (hempty : ∀ slot, ram.entry root slot = .absent)
    {path : List (Fin 512)} {table : PhysAddr} (hfound : findTable ram root path = some table) :
    path = [] ∧ table = root := by
  cases path with
  | nil => exact ⟨rfl, (Option.some.inj hfound).symm⟩
  | cons slot path =>
    rw [findTable, hempty slot] at hfound
    cases hfound

theorem walks_of_empty (hempty : ∀ slot, ram.entry root slot = .absent) :
    walks ram root = {([], root)} := by
  ext ⟨path, table⟩
  constructor
  · rintro ⟨-, hfound⟩
    obtain ⟨hpath, htable⟩ := findTable_of_empty hempty hfound
    exact Prod.ext hpath htable
  · intro heq
    cases heq
    exact ⟨Nat.zero_le 3, rfl⟩

theorem tablePaths_of_empty (hempty : ∀ slot, ram.entry root slot = .absent) :
    tablePaths ram root = {[]} := by
  rw [← image_fst_walks, walks_of_empty hempty, Set.image_singleton]

theorem tableFrames_of_empty (hempty : ∀ slot, ram.entry root slot = .absent) :
    tableFrames ram root = {root.frameNumber} := by
  rw [← image_frameNumber_walks, walks_of_empty hempty, Set.image_singleton]

end

namespace AddressSpace

variable {L : FrameLedger F} {log : List (MapCall × Except MapError Unit)} {taken : Set Nat}
  {space space' : AddressSpace} {mem mem' : Memory F} {c : MapCall} {result : Except MapError Unit}

/-- What making a space comes to: a frame that was free has become an empty root. -/
theorem new_grant (valid : L.valid mem.frames)
    (made : AddressSpace.new mem = (.ok space, mem')) :
    TableGrant L mem mem' space.root ∧ space.tables = 1 := by
  rcases allocateTable_cases L mem valid with ⟨mem₁, heq, -⟩ | ⟨root, mem₁, heq, grant⟩
  · rw [AddressSpace.new, heq] at made
    cases made
  · rw [AddressSpace.new, heq] at made
    cases made
    exact ⟨grant, rfl⟩

theorem kept_new (valid : L.valid mem.frames)
    (made : AddressSpace.new mem = (.ok space, mem')) :
    Kept L (L.held mem'.frames \ L.held mem.frames) space mem' := by
  obtain ⟨grant, htables⟩ := new_grant valid made
  have hempty : ∀ slot, mem'.ram.entry space.root slot = .absent := by
    rw [grant.ram]
    exact entry_clearFrame mem.ram space.root
  refine ⟨⟨grant.valid, ?_⟩, ?_, ?_⟩
  · have hforest := (forest_empty mem'.ram (L.held mem.frames)).plant grant.free hempty
    rw [grant.held]
    exact hforest.mono (by simp) (Set.Subset.refl _)
  · rw [tableFrames_of_empty hempty, grant.held, Set.insert_sdiff_of_notMem _ grant.free,
      Set.sdiff_self, insert_empty_eq]
  · rw [tablePaths_of_empty hempty, Set.encard_singleton, htables]
    rfl

theorem Kept.pages (h : Kept L taken space mem) {flags : Flags} {va : VirtAddr} {count : Nat}
    {added : List (List (Fin 512))}
    (edited : PagesEdited L flags space mem va count added result space' mem') :
    Kept L (taken ∪ (L.held mem'.frames \ L.held mem.frames)) space' mem' := by
  have extended := edited.edits.extended h.carries rfl
  rw [edited.space_eq]
  refine ⟨extended.carries, ?_, ?_⟩
  · rw [extended.frames, h.frames]
  · rw [extended.encard_tablePaths, h.tables, Nat.cast_add]

theorem Kept.map (h : Kept L taken space mem) (ended : MapEnd L space mem c result space' mem') :
    Kept L (taken ∪ (L.held mem'.frames \ L.held mem.frames)) space' mem' := by
  cases ended with
  | refused unusable =>
    rw [Set.sdiff_self, Set.union_empty]
    exact h
  | nothing size =>
    rw [Set.sdiff_self, Set.union_empty]
    exact h
  | pages usable size edited => exact h.pages edited

/-- Frames that nobody writes to hold the same tables. -/
theorem Kept.entry_eq (h : Kept L taken space mem)
    (same : ∀ n ∈ taken, mem'.ram.frame n = mem.ram.frame n) {path : List (Fin 512)}
    {table : PhysAddr} (hdepth : path.length ≤ 3)
    (hfound : findTable mem.ram space.root path = some table) (slot : Fin 512) :
    mem'.ram.entry table slot = mem.ram.entry table slot := by
  have hmem : table.frameNumber ∈ tableFrames mem.ram space.root :=
    ⟨path, table, hdepth, hfound, rfl⟩
  rw [h.frames] at hmem
  rw [Ram.entry, Ram.entry, same _ hmem]

theorem Kept.findTable_eq (h : Kept L taken space mem)
    (same : ∀ n ∈ taken, mem'.ram.frame n = mem.ram.frame n) {path : List (Fin 512)}
    (hdepth : path.length ≤ 3) :
    findTable mem'.ram space.root path = findTable mem.ram space.root path := by
  refine findTable_congr ?_ (Set.mem_singleton space.root) hdepth
  rintro root path' table ⟨rfl, hdepth', hfound⟩ - slot
  exact h.entry_eq same hdepth' hfound slot

theorem Kept.meanwhile (h : Kept L taken space mem) (valid : L.valid mem'.frames)
    (held : taken ⊆ L.held mem'.frames)
    (same : ∀ n ∈ taken, mem'.ram.frame n = mem.ram.frame n) : Kept L taken space mem' := by
  have hforest : Forest mem'.ram {space.root} (L.held mem.frames) := by
    refine h.carries.forest.congr ?_
    rintro root path table ⟨rfl, hdepth, hfound⟩ - slot
    exact h.entry_eq same hdepth hfound slot
  have hframes : tableFrames mem'.ram space.root = taken := by
    rw [tableFrames_congr fun _ hdepth => h.findTable_eq same hdepth, h.frames]
  refine ⟨⟨valid, ?_, hforest.unique, hforest.inner⟩, hframes, ?_⟩
  · rintro root path table ⟨rfl, hdepth, hfound⟩
    apply held
    rw [← hframes]
    exact ⟨path, table, hdepth, hfound, rfl⟩
  · rw [tablePaths_congr fun _ hdepth => h.findTable_eq same hdepth, h.tables]

theorem Run.kept (run : Run L log taken space mem) : Kept L taken space mem := by
  induction run with
  | new valid made => exact kept_new valid made
  | map run c served ih => exact ih.map (ih.carries.map_end rfl served)
  | meanwhile run valid held same ih => exact ih.meanwhile valid held same

end AddressSpace

end TaskKernel
