/-
  TaskKernel.Proofs.Machine.Estate

  The trees of all live tasks over one pool. They are in order, lead where their tasks may
  map, and stand apart from the frames in other use; building a task adds a tree, and a
  construction that fails leaves the trees as they were.
-/
import TaskKernel.Proofs.Task.Layout

namespace TaskKernel

/-! ## Trees of tasks -/

/-- The root tables of tasks. -/
def rootsOf (holdings : List Holding) : Set PhysAddr := {root | ∃ h ∈ holdings, h.root = root}

theorem rootsOf_append (holdings : List Holding) (h : Holding) :
    rootsOf (holdings ++ [h]) = insert h.root (rootsOf holdings) := by
  ext root
  simp only [rootsOf, List.mem_append, List.mem_singleton, Set.mem_ofPred_eq, Set.mem_insert_iff]
  constructor
  · rintro ⟨h', hmem | rfl, rfl⟩
    · exact Or.inr ⟨h', hmem, rfl⟩
    · exact Or.inl rfl
  · rintro (rfl | ⟨h', hmem, rfl⟩)
    · exact ⟨h, Or.inr rfl, rfl⟩
    · exact ⟨h', Or.inl hmem, rfl⟩

/-- The trees under `roots` have the same leaves in both memories. -/
def LeavesKept (roots : Set PhysAddr) (ram ram' : Ram) : Prop :=
  ∀ root ∈ roots, ∀ va : VirtAddr, va.toNat < 2 ^ 48 → pageLeaf ram' root va = pageLeaf ram root va

theorem SameLeaves.kept {roots : Set PhysAddr} {ram ram' : Ram} (h : SameLeaves roots ram ram') :
    LeavesKept roots ram ram' :=
  fun root hroot va _ => h root hroot va.tablePath rfl va.leafSlot

theorem LeavesKept.of_eq {roots : Set PhysAddr} {ram ram' : Ram} (h : ram' = ram) :
    LeavesKept roots ram ram' := by
  intro root hroot va hva
  rw [h]

theorem LeavesKept.trans {roots : Set PhysAddr} {ram ram' ram'' : Ram}
    (h : LeavesKept roots ram ram') (h' : LeavesKept roots ram' ram'') :
    LeavesKept roots ram ram'' :=
  fun root hroot va hva => (h' root hroot va hva).trans (h root hroot va hva)

/-- The leaf that shows the kernel stack. -/
def Holding.windowLeaf (h : Holding) : Descriptor :=
  h.kernelStackCall.descriptor Layout.kernelStackWindow

/-- What the tree of a task with holding `h` leads to. -/
structure Holding.Housed (trampoline : PhysAddr) (ram : Ram) (h : Holding) : Prop where
  placed : h.Placed
  leaves : ∀ va : VirtAddr, va.toNat < 2 ^ 48 → ∀ d, pageLeaf ram h.root va = some d →
    h.MayMap trampoline d
  window : pageLeaf ram h.root Layout.kernelStackWindow = some h.windowLeaf

theorem Holding.Housed.kept {trampoline : PhysAddr} {roots : Set PhysAddr} {ram ram' : Ram}
    {h : Holding} (housed : h.Housed trampoline ram) (kept : LeavesKept roots ram ram')
    (hroot : h.root ∈ roots) : h.Housed trampoline ram' where
  placed := housed.placed
  leaves va hva d hd := housed.leaves va hva d ((kept h.root hroot va hva).symm.trans hd)
  window := (kept h.root hroot Layout.kernelStackWindow (by decide)).trans housed.window

/-- The trees of the tasks with `holdings` are in order, each under a root of its own and
    with the leaves it should have; the frames `others` are held for other uses. -/
structure Estate (trampoline : PhysAddr) (others : Set Nat) (holdings : List Holding)
    (mem : Memory FramePool) : Prop where
  carries : (FramePool.ledger.besides others).Carries mem (rootsOf holdings)
  distinct : (holdings.map Holding.root).Nodup
  housed : ∀ h ∈ holdings, h.Housed trampoline mem.ram

/-! ## Building a space -/

section

variable {F : Type} [FrameSource F] {L : FrameLedger F} {roots : Set PhysAddr} {mem : Memory F}

/-- A space is built under a fresh root, or nothing remains of it. -/
theorem Task.buildSpace_cases (hcarries : L.Carries mem roots) {h : Holding} (placed : h.Placed)
    (trampoline : PhysAddr) :
    (∃ e mem', Task.buildSpace mem h.kernelStack h.userStack h.entry h.imageSize =
        (.error e, mem') ∧ L.Carries mem' roots ∧ LeavesKept roots mem.ram mem'.ram) ∨
    (∃ space mem', Task.buildSpace mem h.kernelStack h.userStack h.entry h.imageSize =
        (.ok space, mem') ∧ space.root ∉ roots ∧ L.Carries mem' (insert space.root roots) ∧
      LeavesKept roots mem.ram mem'.ram ∧
      (∀ va : VirtAddr, va.toNat < 2 ^ 48 → ∀ d, pageLeaf mem'.ram space.root va = some d →
        h.MayMap trampoline d) ∧
      pageLeaf mem'.ram space.root Layout.kernelStackWindow = some h.windowLeaf) := by
  rw [Task.buildSpace]
  rcases hcarries.new_cases with
    ⟨mem₁, heq, hcarries₁, hleaves⟩ | ⟨space, mem₁, heq, hfresh, hcarries₁, hleaves, hempty⟩
  · rw [heq]
    exact Or.inl ⟨_, _, rfl, hcarries₁, hleaves.kept⟩
  · obtain ⟨result, space', mem', heq', hroot, relaid, hwindow⟩ :=
      Task.mapLayout_relaid hcarries₁ (Set.mem_insert space.root roots) placed trampoline
    have kept : LeavesKept roots mem.ram mem'.ram := by
      refine hleaves.kept.trans fun r hr va hva =>
        relaid.others r (Set.mem_insert_of_mem _ hr) ?_ va hva
      rintro rfl
      exact hfresh hr
    rw [heq]
    dsimp only
    rw [heq']
    cases result with
    | error e => exact Or.inl ⟨_, _, rfl, relaid.carries.fewer (Set.subset_insert _ _), kept⟩
    | ok _ =>
      refine Or.inr ⟨space', mem', rfl, ?_⟩
      rw [hroot]
      refine ⟨hfresh, relaid.carries, kept, fun va hva d hd => ?_, hwindow rfl⟩
      -- Before the layout there were no leaves under the fresh root.
      refine (relaid.own va hva d hd).resolve_right ?_
      rw [pageLeaf, ← AddressSpace.leaf_eq_leafAt, hempty va]
      rintro ⟨⟩

end

/-! ## Other frames -/

/-- The frames of several allocations. -/
def framesOf (books : Multiset Allocation) : Set Nat := {n | ∃ a ∈ books, n ∈ a.frames}

@[simp] theorem framesOf_zero : framesOf 0 = ∅ := by
  ext n
  simp [framesOf]

@[simp] theorem framesOf_add (books books' : Multiset Allocation) :
    framesOf (books + books') = framesOf books ∪ framesOf books' := by
  ext n
  simp only [framesOf, Multiset.mem_add, Set.mem_ofPred_eq, Set.mem_union]
  constructor
  · rintro ⟨a, ha | ha, hn⟩
    · exact Or.inl ⟨a, ha, hn⟩
    · exact Or.inr ⟨a, ha, hn⟩
  · rintro (⟨a, ha, hn⟩ | ⟨a, ha, hn⟩)
    · exact ⟨a, Or.inl ha, hn⟩
    · exact ⟨a, Or.inr ha, hn⟩

@[simp] theorem framesOf_singleton (a : Allocation) : framesOf {a} = a.frames := by
  ext n
  simp [framesOf]

theorem frames_subset_framesOf {books : Multiset Allocation} {a : Allocation} (ha : a ∈ books) :
    a.frames ⊆ framesOf books :=
  fun _ hn => ⟨a, ha, hn⟩

namespace FramePool.Booked

variable {reserved : Set Nat} {pool : FramePool} {books rest : Multiset Allocation}
  {a : Allocation}

/-- What is on the books of a pool lies in its pages. -/
theorem placed_allocation (h : Booked reserved pool books)
    (hfits : pool.Fits) (ha : a ∈ books) : a.Placed := by
  obtain ⟨i, hbase, hi⟩ := h.placed a ha
  have hlt := h.addressable.lt (i := i) (by omega)
  have hmul := Nat.mul_le_mul_right pageSize hi
  rw [Nat.add_mul, pageCount_mul] at hmul
  unfold Fits at hfits
  refine ⟨?_, ?_⟩
  · rw [hbase]
    exact pageOffset_pageAddr hlt
  · rw [hbase, toNat_pageAddr hlt]
    omega

/-- What is on the books stands apart from everything else there. -/
theorem disjoint_framesOf (h : Booked reserved pool (books + rest)) (ha : a ∈ books) :
    Disjoint (reserved ∪ framesOf rest) a.frames := by
  have hmem : a ∈ books + rest := Multiset.mem_add.2 (Or.inl ha)
  refine Set.disjoint_union_left.2 ⟨h.apart a hmem, Set.disjoint_left.2 ?_⟩
  rintro n ⟨b, hb, hn⟩
  have hne : b ≠ a := by
    rintro rfl
    exact Multiset.disjoint_left.1 (Multiset.nodup_add.1 h.nodup).2.2 ha hb
  exact Set.disjoint_left.1 (h.disjoint b (Multiset.mem_add.2 (Or.inr hb)) a hmem hne) hn

/-- Ranges on the books are ready to go back: placed, and apart from each other and from
    what stays. -/
theorem goingBack {back : List Allocation} (h : Booked reserved pool (↑back + rest))
    (hfits : pool.Fits) : (∀ a ∈ back, a.Placed) ∧
      (back.Pairwise fun a b => Disjoint a.frames b.frames) ∧
      ∀ a ∈ back, Disjoint (reserved ∪ framesOf rest) a.frames := by
  have hmem {a : Allocation} (ha : a ∈ back) : a ∈ ↑back + rest :=
    Multiset.mem_add.2 (Or.inl ha)
  have hnodup : back.Nodup := Multiset.coe_nodup.1 (Multiset.nodup_add.1 h.nodup).1
  exact ⟨fun a ha => h.placed_allocation hfits (hmem ha),
    hnodup.pairwise_of_forall_ne fun a ha b hb hne => h.disjoint a (hmem ha) b (hmem hb) hne,
    fun a ha => h.disjoint_framesOf (Multiset.mem_coe.2 ha)⟩

end FramePool.Booked

theorem framesOf_stacks (h : Holding) :
    framesOf h.stacks = h.kernelStack.allocation.frames ∪ h.userStack.allocation.frames := by
  ext n
  simp [framesOf, Holding.stacks]

namespace Estate

variable {trampoline : PhysAddr} {others others' : Set Nat} {holdings : List Holding}
  {mem mem' : Memory FramePool}

theorem keep (h : Estate trampoline others holdings mem)
    (carries : (FramePool.ledger.besides others').Carries mem' (rootsOf holdings))
    (kept : LeavesKept (rootsOf holdings) mem.ram mem'.ram) :
    Estate trampoline others' holdings mem' where
  carries := carries
  distinct := h.distinct
  housed holding hmem := (h.housed holding hmem).kept kept ⟨holding, hmem, rfl⟩

/-- Fewer frames may be in other use than it is known. -/
theorem mono (h : Estate trampoline others holdings mem) (hsubset : others' ⊆ others) :
    Estate trampoline others' holdings mem :=
  h.keep ⟨⟨h.carries.valid.1, hsubset.trans h.carries.valid.2⟩,
    h.carries.forest.mono (Set.Subset.refl _) (Set.sdiff_subset_sdiff_right hsubset)⟩ (.of_eq rfl)

theorem refuse (h : Estate trampoline others holdings mem) {size : Nat}
    (heq : mem.allocate size = (none, mem')) : Estate trampoline others holdings mem' :=
  h.keep (h.carries.refuse heq) (.of_eq (ram_of_allocate heq))

theorem reserve (h : Estate trampoline others holdings mem) {size : Nat} {pa : PhysAddr}
    (heq : mem.allocate size = (some pa, mem')) :
    Estate trampoline (others ∪ framesFrom pa size) holdings mem' ∧
      Allocation.Placed ⟨pa, size⟩ ∧ Disjoint others (framesFrom pa size) := by
  obtain ⟨hcarries, hgrant⟩ := h.carries.reserve heq
  exact ⟨h.keep hcarries (.of_eq (ram_of_allocate heq)), hgrant.placed,
    hgrant.fresh.mono_left h.carries.valid.2⟩

theorem overwrite (h : Estate trampoline others holdings mem) (f : Ram → Ram)
    (hsame : ∀ n, n ∉ others → (f mem.ram).frame n = mem.ram.frame n) :
    Estate trampoline others holdings (mem.mapRam f) := by
  obtain ⟨hcarries, hleaves⟩ := h.carries.overwrite f hsame
  exact h.keep hcarries hleaves.kept

theorem giveBack (h : Estate trampoline others holdings mem) {a : Allocation} (placed : a.Placed)
    (hin : a.frames ⊆ others) (hleft : others' ⊆ others) (hapart : Disjoint others' a.frames) :
    Estate trampoline others' holdings (mem.release a.base a.size) :=
  h.keep (h.carries.giveBack FrameLedger.returns_pool placed.aligned hin hleft hapart) (.of_eq rfl)

/-- The trees of some tasks are forgotten. -/
theorem forget (h : Estate trampoline others holdings mem) {gone left : List Holding}
    (hperm : holdings.Perm (gone ++ left)) : Estate trampoline others left mem where
  carries := h.carries.fewer fun _ ⟨holding, hmem, hroot⟩ =>
    ⟨holding, hperm.mem_iff.2 (List.mem_append_right gone hmem), hroot⟩
  distinct := by
    have hnodup := (hperm.map Holding.root).nodup_iff.1 h.distinct
    rw [List.map_append] at hnodup
    exact (List.nodup_append.1 hnodup).2.1
  housed holding hmem := h.housed holding (hperm.mem_iff.2 (List.mem_append_right gone hmem))

/-- Ranges that do not overlap go back one after the other. -/
theorem releaseAll (h : Estate trampoline others holdings mem) {back : List Allocation}
    (placed : ∀ a ∈ back, a.Placed) (hin : ∀ a ∈ back, a.frames ⊆ others)
    (hpairwise : back.Pairwise fun a b => Disjoint a.frames b.frames) (hleft : others' ⊆ others)
    (hapart : ∀ a ∈ back, Disjoint others' a.frames) :
    Estate trampoline others' holdings (mem.releaseAll back) := by
  induction back generalizing others mem with
  | nil => exact h.mono hleft
  | cons a back ih =>
    obtain ⟨hfirst, hrest⟩ := List.pairwise_cons.1 hpairwise
    obtain ⟨placedFirst, placedRest⟩ := List.forall_mem_cons.1 placed
    obtain ⟨hinFirst, hinRest⟩ := List.forall_mem_cons.1 hin
    obtain ⟨hapartFirst, hapartRest⟩ := List.forall_mem_cons.1 hapart
    -- What is left in other use are the frames that have not gone back yet.
    have step := h.giveBack placedFirst hinFirst Set.sdiff_subset
      (Set.disjoint_sdiff_left (s := a.frames) (t := others))
    exact ih step placedRest
      (fun b hb => Set.subset_sdiff.2 ⟨hinRest b hb, (hfirst b hb).symm⟩) hrest
      (Set.subset_sdiff.2 ⟨hleft, hapartFirst⟩) hapartRest

/-! ## Building and releasing tasks -/

/-- A task that could not be built leaves the trees as they were. -/
theorem build_failed (h : Estate trampoline others holdings mem) {id : TaskId} {entry : VirtAddr}
    {imageSize : Nat}
    (image : Allocation.Placed ⟨LinearWindow.kernel.toPhys entry, pageRoundUp imageSize⟩)
    {e : TaskError} (hbuild : Task.build mem id entry imageSize = (.error e, mem')) :
    Estate trampoline others holdings mem' := by
  cases Task.build_end hbuild with
  | noKernelStack kernel => exact h.refuse kernel
  | @noUserStack kernelBase mem₁ mem₂ kernel user =>
    obtain ⟨hkernel, placed, hapart⟩ := h.reserve kernel
    exact (hkernel.refuse user).giveBack placed Set.subset_union_right Set.subset_union_left hapart
  | @noSpace kernelBase userBase mem₁ mem₂ mem₃ e kernel user space =>
    obtain ⟨hkernel, placedKernel, hapartKernel⟩ := h.reserve kernel
    obtain ⟨huser, placedUser, hapartUser⟩ := hkernel.reserve user
    have placed : Holding.Placed ⟨id, entry, imageSize, ⟨kernelBase, Layout.kernelStackSize⟩,
        ⟨userBase, Layout.userStackSize⟩, trampoline⟩ :=
      ⟨⟨rfl, rfl⟩, image, placedKernel, placedUser⟩
    rcases Task.buildSpace_cases huser.carries placed trampoline with
      ⟨_, _, heq, hcarries, kept⟩ | ⟨_, _, heq, -⟩
    · cases heq.symm.trans space
      -- The kernel stack goes back first, while the user stack is still in other use.
      have both := huser.keep hcarries kept
      obtain ⟨hothers, hkernelUser⟩ := Set.disjoint_union_left.1 hapartUser
      have hapart : Disjoint (others ∪ framesFrom userBase Layout.userStackSize)
          (framesFrom kernelBase Layout.kernelStackSize) :=
        Set.disjoint_union_left.2 ⟨hapartKernel, hkernelUser.symm⟩
      have userLeft := both.giveBack placedKernel
        (Set.subset_union_right.trans Set.subset_union_left)
        (Set.union_subset_union_left _ Set.subset_union_left) hapart
      exact userLeft.giveBack placedUser Set.subset_union_right Set.subset_union_left hothers
    · cases heq.symm.trans space

/-- A task that was built adds its tree, and its stacks are in other use from then on. -/
theorem build (h : Estate trampoline others holdings mem) {id : TaskId} {entry : VirtAddr}
    {imageSize : Nat}
    (image : Allocation.Placed ⟨LinearWindow.kernel.toPhys entry, pageRoundUp imageSize⟩)
    {task : Task} (hbuild : Task.build mem id entry imageSize = (.ok task, mem')) :
    Estate trampoline (others ∪ framesOf task.holding.stacks) (holdings ++ [task.holding]) mem' := by
  cases Task.build_end hbuild with
  | @built kernelBase userBase mem₁ mem₂ _ _ kernel user space holding =>
    obtain ⟨hkernel, placedKernel, -⟩ := h.reserve kernel
    obtain ⟨huser, placedUser, -⟩ := hkernel.reserve user
    have placed : task.holding.Placed := by
      rw [holding]
      exact ⟨⟨rfl, rfl⟩, image, placedKernel, placedUser⟩
    have hcases := Task.buildSpace_cases huser.carries placed trampoline
    rw [framesOf_stacks, holding]
    rw [holding] at hcases placed
    rcases hcases with ⟨_, _, heq, -⟩ | ⟨_, _, heq, hfresh, hcarries, kept, hleaves, hwindow⟩
    · cases heq.symm.trans space
    · cases heq.symm.trans space
      refine ⟨?_, ?_, ?_⟩
      · rw [rootsOf_append, ← Set.union_assoc]
        exact hcarries
      · rw [List.map_append, List.nodup_append]
        refine ⟨h.distinct, List.nodup_singleton _, ?_⟩
        intro root hroot root' hroot' heq
        obtain rfl := List.mem_singleton.1 hroot'
        obtain ⟨other, hother, rfl⟩ := List.mem_map.1 hroot
        exact hfresh ⟨other, hother, heq⟩
      · intro holding' hmem
        rcases List.mem_append.1 hmem with hold | hnew
        · exact (huser.housed holding' hold).kept kept ⟨holding', hold, rfl⟩
        · obtain rfl := List.mem_singleton.1 hnew
          exact ⟨placed, hleaves, hwindow⟩

/-- Installing a handler maps the page of the signal return code at most. -/
theorem registerHandler (h : Estate trampoline others holdings mem)
    (haligned : trampoline.pageOffset = 0) (hbelow : trampoline.toNat < 2 ^ 48) {task : Task}
    (hmem : task.holding ∈ holdings) (signum : Int) (addr : Word) :
    Estate trampoline others holdings (task.registerHandler mem signum addr trampoline).2.2 := by
  rcases task.registerHandler_cases mem signum addr trampoline with
    ⟨signals, heq⟩ | ⟨signals, result, space, mem', hmap, heq⟩
  · rw [heq]
    exact h
  · have hroot : task.space.root ∈ rootsOf holdings := ⟨task.holding, hmem, rfl⟩
    obtain ⟨written, _, _, _, hmap', served⟩ := MapCall.served_map h.carries
      (trampolineCall_aligned haligned hbelow).inBounds task.space hroot
    cases hmap'.symm.trans hmap
    rw [heq]
    have relaid := served.relaid hroot fun va =>
      task.holding.mayMap_trampolineCall haligned hbelow
    refine ⟨served.carries, h.distinct, fun holding hholding => ?_⟩
    have housed := h.housed holding hholding
    have hmember : holding.root ∈ rootsOf holdings := ⟨holding, hholding, rfl⟩
    by_cases hsame : holding.root = task.space.root
    · -- Roots tell tasks apart.
      obtain rfl : holding = task.holding :=
        List.inj_on_of_nodup_map h.distinct hholding hmem hsame
      refine ⟨housed.placed, fun va hva d hd => ?_, ?_⟩
      · exact (relaid.own va hva d hd).elim id (housed.leaves va hva d)
      · refine Eq.trans ?_ housed.window
        have hout : ¬ InPages (trampolineCall trampoline).va written Layout.kernelStackWindow :=
          fun hin => not_touches_kernelStackWindow trampoline (served.wrote.touches hin)
        exact (served.pageLeaf_eq hroot (by decide)).trans (if_neg fun hin => hout hin.2)
    · exact ⟨housed.placed, fun va hva d hd => housed.leaves va hva d
        ((relaid.others _ hmember hsame va hva).symm.trans hd),
        (relaid.others _ hmember hsame _ (by decide)).trans housed.window⟩

end Estate

end TaskKernel
