/-
  TaskKernel.Proofs.PageTable.TableCount

  How many tables an address space has. The count that a space keeps is one for the root and
  one for each descriptor above the last level, and as many frames were taken for it. While
  no call fails there is one table for each way that a page of the calls goes by, and no
  other.
-/
import TaskKernel.Proofs.PageTable.SpaceRuns

namespace TaskKernel

/-! ## Tables, frames and descriptors -/

/-- The descriptors that are there in the tables under `root` above the last level, each as
    its table and its slot. -/
def links (ram : Ram) (root : PhysAddr) : Set (PhysAddr × Fin 512) :=
  {link | ∃ path : List (Fin 512), path.length < 3 ∧ findTable ram root path = some link.1 ∧
    (ram.entry link.1 link.2).isAbsent = false}

/-- The same descriptors, each with the path to its table. -/
def steps (ram : Ram) (root : PhysAddr) : Set (List (Fin 512) × PhysAddr × Fin 512) :=
  {step | step.1.length < 3 ∧ findTable ram root step.1 = some step.2.1 ∧
    (ram.entry step.2.1 step.2.2).isAbsent = false}

theorem image_snd_steps (ram : Ram) (root : PhysAddr) :
    Prod.snd '' steps ram root = links ram root := by
  ext link
  constructor
  · rintro ⟨⟨path, link⟩, ⟨hdepth, hfound, hpresent⟩, rfl⟩
    exact ⟨path, hdepth, hfound, hpresent⟩
  · rintro ⟨path, hdepth, hfound, hpresent⟩
    exact ⟨(path, link), ⟨hdepth, hfound, hpresent⟩, rfl⟩

/-- There is one table at the end of a path at most. -/
theorem injOn_fst_walks (ram : Ram) (root : PhysAddr) : Set.InjOn Prod.fst (walks ram root) := by
  rintro ⟨path, table⟩ ⟨-, hfound⟩ ⟨path', table'⟩ ⟨-, hfound'⟩ heq
  dsimp only at hfound hfound' heq
  rw [heq, hfound'] at hfound
  rw [heq, Option.some.inj hfound]

theorem injOn_append_steps (ram : Ram) (root : PhysAddr) :
    Set.InjOn (fun step => step.1 ++ [step.2.2]) (steps ram root) := by
  rintro ⟨path, table, slot⟩ ⟨-, hfound, -⟩ ⟨path', table', slot'⟩ ⟨-, hfound', -⟩ heq
  obtain ⟨hpath, hslot⟩ := List.append_inj' heq rfl
  dsimp only at hfound hfound' hpath hslot
  rw [hpath, hfound'] at hfound
  rw [hpath, Option.some.inj hfound, List.singleton_inj.1 hslot]

namespace Forest

variable {ram : Ram} {root : PhysAddr} {held : Set Nat}

theorem injOn_frameNumber_walks (h : Forest ram {root} held) :
    Set.InjOn (fun walk => walk.2.frameNumber) (walks ram root) := by
  rintro ⟨path, table⟩ ⟨hdepth, hfound⟩ ⟨path', table'⟩ ⟨hdepth', hfound'⟩ heq
  obtain ⟨-, hpath⟩ := h.unique ⟨rfl, hdepth, hfound⟩ ⟨rfl, hdepth', hfound'⟩ heq
  exact injOn_fst_walks ram root ⟨hdepth, hfound⟩ ⟨hdepth', hfound'⟩ hpath

/-- No table is reached on two paths. -/
theorem injOn_snd_steps (h : Forest ram {root} held) : Set.InjOn Prod.snd (steps ram root) := by
  rintro ⟨path, link⟩ ⟨hdepth, hfound, -⟩ ⟨path', link'⟩ ⟨hdepth', hfound', -⟩ heq
  dsimp only at hdepth hdepth' hfound hfound' heq
  rw [heq] at hfound
  obtain ⟨-, hpath⟩ := h.unique ⟨rfl, hdepth.le, hfound⟩ ⟨rfl, hdepth'.le, hfound'⟩ rfl
  rw [heq, hpath]

/-- Above the last level, what is there leads to a table, and every table but the root is
    led to in this way. -/
theorem insert_image_steps (h : Forest ram {root} held) :
    insert [] ((fun step => step.1 ++ [step.2.2]) '' steps ram root) = tablePaths ram root := by
  ext path
  constructor
  · rintro (rfl | ⟨⟨path, table, slot⟩, ⟨hdepth, hfound, hpresent⟩, rfl⟩)
    · exact ⟨Nat.zero_le 3, root, rfl⟩
    · have hreached : Reached ram {root} root path table := ⟨rfl, hdepth.le, hfound⟩
      have htable := (h.inner hreached hdepth slot).resolve_left (by rw [hpresent]; decide)
      refine ⟨?_, _, findTable_snoc_iff.2 ⟨table, hfound, htable, rfl⟩⟩
      rw [List.length_append, List.length_singleton]
      exact hdepth
  · rintro ⟨hdepth, child, hchild⟩
    induction path using List.reverseRecOn with
    | nil => exact Set.mem_insert _ _
    | append_singleton path slot _ =>
      rw [List.length_append, List.length_singleton] at hdepth
      obtain ⟨table, hfound, htable, -⟩ := findTable_snoc_iff.1 hchild
      have hpresent := Descriptor.not_isAbsent_of_isTable htable
      exact Or.inr ⟨(path, table, slot), ⟨hdepth, hfound, hpresent⟩, rfl⟩

/-- Every table stands in a frame of its own. -/
theorem encard_tableFrames (h : Forest ram {root} held) :
    (tableFrames ram root).encard = (tablePaths ram root).encard := by
  rw [← image_fst_walks, ← image_frameNumber_walks, (injOn_fst_walks ram root).encard_image,
    h.injOn_frameNumber_walks.encard_image]

/-- Every table but the root hangs on a descriptor of its own. -/
theorem encard_tablePaths (h : Forest ram {root} held) :
    (tablePaths ram root).encard = 1 + (links ram root).encard := by
  have hroot : [] ∉ (fun step => step.1 ++ [step.2.2]) '' steps ram root := by
    rintro ⟨step, -, heq⟩
    exact List.append_ne_nil_of_right_ne_nil _ (List.cons_ne_nil _ _) heq
  rw [← h.insert_image_steps, ← image_snd_steps, Set.encard_insert_of_notMem hroot,
    (injOn_append_steps ram root).encard_image, h.injOn_snd_steps.encard_image, add_comm]

end Forest

/-! ## The tables that the calls need -/

/-- The first `n` slots on the way to the pages that the calls of `log` touch. -/
def indexPrefixes (log : List (MapCall × Except MapError Unit)) (n : Nat) :
    Set (List (Fin 512)) :=
  {path | ∃ call ∈ log, ∃ va : VirtAddr, call.1.Touches va ∧ path = va.tablePath.take n}

/-- Where the tables stand that the pages of one call need. -/
def MapCall.neededPaths (c : MapCall) : Set (List (Fin 512)) :=
  {path | ∃ va, c.Touches va ∧ path <+: va.tablePath}

/-- Where the tables stand that a space needs after the calls of `log`. -/
def neededPaths (log : List (MapCall × Except MapError Unit)) : Set (List (Fin 512)) :=
  insert [] {path | ∃ call ∈ log, path ∈ call.1.neededPaths}

theorem neededPaths_nil : neededPaths [] = {[]} := by
  ext path
  simp [neededPaths]

theorem neededPaths_cons (call : MapCall × Except MapError Unit)
    (log : List (MapCall × Except MapError Unit)) :
    neededPaths (call :: log) = neededPaths log ∪ call.1.neededPaths := by
  ext path
  simp only [neededPaths, Set.mem_union, Set.mem_insert_iff, Set.mem_ofPred_eq, List.mem_cons,
    exists_eq_or_imp]
  rw [← or_assoc, or_right_comm]

theorem length_of_mem_indexPrefixes {log : List (MapCall × Except MapError Unit)} {n : Nat}
    (hn : n ≤ 3) {path : List (Fin 512)} (h : path ∈ indexPrefixes log n) : path.length = n := by
  obtain ⟨call, -, va, -, rfl⟩ := h
  rw [List.length_take]
  exact Nat.min_eq_left hn

/-- A way is empty or has one slot, two or three. -/
theorem neededPaths_eq (log : List (MapCall × Except MapError Unit)) :
    neededPaths log =
      {[]} ∪ indexPrefixes log 1 ∪ indexPrefixes log 2 ∪ indexPrefixes log 3 := by
  ext path
  constructor
  · rintro (rfl | ⟨call, hmem, va, htouch, halong⟩)
    · exact Or.inl (Or.inl (Or.inl rfl))
    · have htake := List.prefix_iff_eq_take.1 halong
      have hlength : path.length ≤ 3 := halong.length_le
      have hcases : path.length = 0 ∨ path.length = 1 ∨ path.length = 2 ∨ path.length = 3 := by
        omega
      rcases hcases with h | h | h | h <;> rw [h] at htake
      · rw [htake]
        exact Or.inl (Or.inl (Or.inl rfl))
      · exact Or.inl (Or.inl (Or.inr ⟨call, hmem, va, htouch, htake⟩))
      · exact Or.inl (Or.inr ⟨call, hmem, va, htouch, htake⟩)
      · exact Or.inr ⟨call, hmem, va, htouch, htake⟩
  · rintro (((rfl | h) | h) | h)
    · exact Set.mem_insert _ _
    all_goals
      obtain ⟨call, hmem, va, htouch, rfl⟩ := h
      exact Or.inr ⟨call, hmem, va, htouch, List.take_prefix _ _⟩

/-- Shorter ways are different ways. -/
theorem notMem_of_indexPrefixes (log : List (MapCall × Except MapError Unit)) {n : Nat}
    (hn : n ≤ 3) {paths : Set (List (Fin 512))} (hshort : ∀ path ∈ paths, path.length < n)
    ⦃path : List (Fin 512)⦄ (h : path ∈ indexPrefixes log n) : path ∉ paths := by
  intro hmem
  have hlt := hshort path hmem
  rw [length_of_mem_indexPrefixes hn h] at hlt
  exact Nat.lt_irrefl n hlt

theorem encard_neededPaths (log : List (MapCall × Except MapError Unit)) :
    (neededPaths log).encard = 1 + (indexPrefixes log 1).encard + (indexPrefixes log 2).encard +
      (indexPrefixes log 3).encard := by
  have h1 : ∀ path ∈ ({[]} : Set (List (Fin 512))), path.length < 1 := by
    rintro path rfl
    exact Nat.zero_lt_one
  have h2 : ∀ path ∈ {[]} ∪ indexPrefixes log 1, path.length < 2 := by
    rintro path (h | h)
    · exact Nat.lt_succ_of_lt (h1 path h)
    · exact Nat.lt_succ_of_le (length_of_mem_indexPrefixes (by decide) h).le
  have h3 : ∀ path ∈ {[]} ∪ indexPrefixes log 1 ∪ indexPrefixes log 2, path.length < 3 := by
    rintro path (h | h)
    · exact Nat.lt_succ_of_lt (h2 path h)
    · exact Nat.lt_succ_of_le (length_of_mem_indexPrefixes (by decide) h).le
  have disjoint1 := Set.disjoint_right.2 (notMem_of_indexPrefixes log (by decide) h1)
  have disjoint2 := Set.disjoint_right.2 (notMem_of_indexPrefixes log (by decide) h2)
  have disjoint3 := Set.disjoint_right.2 (notMem_of_indexPrefixes log (by decide) h3)
  rw [neededPaths_eq, Set.encard_union_eq disjoint3, Set.encard_union_eq disjoint2,
    Set.encard_union_eq disjoint1, Set.encard_singleton]

/-! ## What one call adds -/

/-- The way to a table goes by tables. -/
theorem mem_tablePaths_of_prefix {ram : Ram} {root : PhysAddr} {path path' : List (Fin 512)}
    (halong : path <+: path') (h : path' ∈ tablePaths ram root) : path ∈ tablePaths ram root := by
  obtain ⟨rest, rfl⟩ := halong
  obtain ⟨hdepth, table, hfound⟩ := h
  rw [findTable_append] at hfound
  obtain ⟨table', hfound', -⟩ := Option.bind_eq_some_iff.1 hfound
  rw [List.length_append] at hdepth
  exact ⟨by omega, table', hfound'⟩

namespace MapCall

variable {c : MapCall}

/-- Pages of a range that ends at 2 ^ 48 at most are numbered without a gap. -/
theorem frameNumber_page (hrange : c.va.toNat + c.size ≤ 2 ^ 48) {i : Nat}
    (hi : i < AddressSpace.pagesTouched c.va c.size) :
    (c.va.pageDown.plus (i * pageSize)).frameNumber = c.va.frameNumber + i := by
  rw [AddressSpace.pagesTouched, Address.pageOffset_eq_mod, pageSize] at hi
  have hdown := Address.toNat_pageDown c.va
  have hplus : (c.va.pageDown.plus (i * pageSize)).toNat = c.va.pageDown.toNat + i * pageSize := by
    apply Address.toNat_plus_of_lt
    rw [pageSize]
    omega
  rw [Address.frameNumber, hplus, hdown, pageSize, Address.frameNumber]
  omega

/-- The pages of a range are the ones that a call for it touches. -/
theorem touches_page (hrange : c.va.toNat + c.size ≤ 2 ^ 48) (hsize : c.size ≠ 0) {i : Nat}
    (hi : i < AddressSpace.pagesTouched c.va c.size) :
    c.Touches (c.va.pageDown.plus (i * pageSize)) := by
  apply (c.inPages_pagesTouched_iff hsize _).1
  rw [InPages, frameNumber_page hrange hi]
  omega

theorem exists_page (hrange : c.va.toNat + c.size ≤ 2 ^ 48) (hsize : c.size ≠ 0) {va : VirtAddr}
    (htouch : c.Touches va) : ∃ i < AddressSpace.pagesTouched c.va c.size,
      va.tablePath = (c.va.pageDown.plus (i * pageSize)).tablePath := by
  obtain ⟨hle, hlt⟩ := (c.inPages_pagesTouched_iff hsize va).2 htouch
  refine ⟨va.frameNumber - c.va.frameNumber, by omega, ?_⟩
  have hi : va.frameNumber - c.va.frameNumber < AddressSpace.pagesTouched c.va c.size := by omega
  have hframe := frameNumber_page hrange hi
  exact (Address.slots_eq_of_frameNumber (by omega)).1

theorem neededPaths_of_size_eq_zero (hsize : c.size = 0) : c.neededPaths = ∅ := by
  ext path
  constructor
  · rintro ⟨va, htouch, -⟩
    exact absurd htouch (not_touches_of_size_eq_zero hsize va)
  · exact False.elim

end MapCall

section

variable {F : Type} [FrameSource F] {L : FrameLedger F} {roots : Set PhysAddr}
  {space space' : AddressSpace} {mem mem' : Memory F} {c : MapCall}

/-- A call that succeeds adds the tables that its pages need, where they are missing. -/
theorem MapEnd.tablePaths_eq (h : L.Carries mem roots) (hspace : space.root ∈ roots)
    (hrange : c.va.toNat + c.size ≤ 2 ^ 48) (ended : MapEnd L space mem c (.ok ()) space' mem') :
    tablePaths mem'.ram space'.root = tablePaths mem.ram space.root ∪ c.neededPaths := by
  cases ended with
  | nothing hsize => rw [MapCall.neededPaths_of_size_eq_zero hsize, Set.union_empty]
  | pages usable hsize edited =>
    have extended := edited.edits.extended h hspace
    obtain ⟨-, hpages⟩ := edited.outcome.resolve_right fun h => by cases h
    rw [edited.space_eq]
    apply Set.Subset.antisymm
    · rw [extended.paths]
      rintro path (hold | hnew)
      · exact Or.inl hold
      · obtain ⟨i, hi, halong⟩ := edited.needed path hnew
        exact Or.inr ⟨_, MapCall.touches_page hrange hsize hi, halong⟩
    · rintro path (hold | ⟨va, htouch, halong⟩)
      · rw [extended.paths]
        exact Or.inl hold
      · obtain ⟨i, hi, hpath⟩ := MapCall.exists_page hrange hsize htouch
        rw [hpath] at halong
        exact mem_tablePaths_of_prefix halong (hpages i hi)

end

/-! ## The main result -/

namespace AddressSpace.Run

variable {F : Type} [FrameSource F] {L : FrameLedger F}
  {log : List (MapCall × Except MapError Unit)} {taken : Set Nat} {space : AddressSpace}
  {mem : Memory F}

/-- While every call succeeds, the tables are the ones that the pages need. -/
theorem tablePaths_eq (run : Run L log taken space mem)
    (served : ∀ call ∈ log, call.1.va.toNat + call.1.size ≤ 2 ^ 48 ∧ call.2 = .ok ()) :
    tablePaths mem.ram space.root = neededPaths log := by
  induction run with
  | new valid made =>
    obtain ⟨grant, -⟩ := new_grant valid made
    rw [neededPaths_nil, grant.ram]
    exact tablePaths_of_empty (entry_clearFrame _ _)
  | @map log taken space space' mem mem' run c result call ih =>
    obtain ⟨hrange, hok⟩ := served _ List.mem_cons_self
    dsimp only at hrange hok
    subst hok
    have hcarries := run.kept.carries
    have ended := hcarries.map_end rfl call
    rw [ended.tablePaths_eq hcarries rfl hrange, neededPaths_cons,
      ih fun call hmem => served call (List.mem_cons_of_mem _ hmem)]
  | meanwhile run valid held same ih =>
    rw [tablePaths_congr fun _ hdepth => run.kept.findTable_eq same hdepth]
    exact ih served

end AddressSpace.Run

/-- After every call the count of a space is one more than its descriptors above the last
    level, and the number of frames that were taken for it; a call that maps nothing takes
    none. While calls below 2 ^ 48 succeed, the tables stand at the beginnings of the ways
    to their pages, and each of these has one. -/
theorem table_count_of_run {F : Type} [FrameSource F] {L : FrameLedger F}
    {log : List (MapCall × Except MapError Unit)} {taken : Set Nat} {space : AddressSpace}
    {mem : Memory F} (run : AddressSpace.Run L log taken space mem) :
    space.tables = 1 + (links mem.ram space.root).encard ∧
    space.tables = taken.encard ∧
    (∀ c : MapCall, c.size = 0 ∨ c.flags.memoryType = none →
      (space.map mem c.va c.pa c.size c.flags).2 = (space, mem)) ∧
    ((∀ call ∈ log, call.1.va.toNat + call.1.size ≤ 2 ^ 48 ∧ call.2 = .ok ()) →
      space.tables = 1 + (indexPrefixes log 1).encard + (indexPrefixes log 2).encard +
        (indexPrefixes log 3).encard ∧
      tablePaths mem.ram space.root =
        {[]} ∪ indexPrefixes log 1 ∪ indexPrefixes log 2 ∪ indexPrefixes log 3) := by
  have kept := run.kept
  have hforest := kept.carries.forest
  refine ⟨?_, ?_, fun c h => space.map_unchanged mem h, fun served => ⟨?_, ?_⟩⟩
  · rw [← kept.tables, hforest.encard_tablePaths]
  · rw [← kept.tables, ← kept.frames, hforest.encard_tableFrames]
  · rw [← kept.tables, run.tablePaths_eq served, encard_neededPaths]
  · rw [run.tablePaths_eq served, neededPaths_eq]

/-- The pages on both sides of 2 MiB. -/
def boundaryCall : MapCall := ⟨0, ⟨0x1f_f000⟩, ⟨0x4000_0000⟩, 8192, .userNormal⟩

theorem boundaryCall_run : ∃ taken mem,
    AddressSpace.Run FramePool.ledger [(boundaryCall, .ok ())] taken ⟨FramePool.pageAddr 0, 5⟩
      mem := by
  have made : AddressSpace.new eightFrames =
      (.ok ⟨FramePool.pageAddr 0, 1⟩, (AddressSpace.new eightFrames).2) :=
    Prod.ext (by decide +kernel) rfl
  have run := AddressSpace.Run.new eightFrames_valid made
  refine ⟨_, _, run.map boundaryCall (Prod.ext ?_ (Prod.ext ?_ rfl))⟩
  · decide +kernel
  · decide +kernel

/-- Two pages on both sides of 2 MiB need two last-level tables. -/
theorem table_count_of_run_boundary : ∃ taken mem,
    AddressSpace.Run FramePool.ledger [(boundaryCall, .ok ())] taken ⟨FramePool.pageAddr 0, 5⟩ mem ∧
      5 = taken.encard ∧ 5 = 1 + (links mem.ram (FramePool.pageAddr 0)).encard ∧
      5 = 1 + (indexPrefixes [(boundaryCall, .ok ())] 1).encard +
        (indexPrefixes [(boundaryCall, .ok ())] 2).encard +
        (indexPrefixes [(boundaryCall, .ok ())] 3).encard := by
  obtain ⟨taken, mem, run⟩ := boundaryCall_run
  obtain ⟨hlinks, htaken, -, hserved⟩ := table_count_of_run run
  have hcalls : ∀ call ∈ [(boundaryCall, Except.ok ())],
      call.1.va.toNat + call.1.size ≤ 2 ^ 48 ∧ call.2 = (.ok () : Except MapError Unit) := by
    intro call hmem
    rw [List.mem_singleton.1 hmem]
    exact ⟨by decide, rfl⟩
  exact ⟨taken, mem, run, htaken, hlinks, (hserved hcalls).1⟩

end TaskKernel
