/-
  TaskKernel.Proofs.Machine.Separation

  Whose frame is whose. No two live tasks have an allocation in common, so what one may
  write in user mode is nobody else's memory, no table and no kernel stack.
-/
import TaskKernel.Proofs.Machine.Isolation

namespace TaskKernel

namespace Machine

/-! ## Allocations of different tasks -/

section

variable {trampoline : PhysAddr} {reserved : Set Nat} {m : Machine FramePool}

/-- The allocations that a task lives in: that of its image and its two stacks. -/
def Uses (m : Machine FramePool) (h : Holding) (a : Allocation) : Prop := m.KeepsImage h a ∨ a ∈ h.stacks

theorem mem_accounts_of_uses {h : Holding} (hmem : h ∈ m.holdings) {a : Allocation}
    (ha : m.Uses h a) : a ∈ m.accounts := by
  rcases ha with ⟨ha, -, -⟩ | ha
  · exact mem_accounts_of_images ha
  · exact mem_accounts_of_stacks hmem ha

/-- An image is no stack. -/
theorem notMem_stacksOf_of_keepsImage (hnodup : m.accounts.Nodup) {h : Holding} {a : Allocation}
    (ha : m.KeepsImage h a) : a ∉ stacksOf m.holdings := by
  rw [accounts, Multiset.coe_nodup, ← List.append_assoc] at hnodup
  exact fun hstack => (List.nodup_append.1 hnodup).2.2 a ha.1 a hstack rfl

/-- Two tasks have no allocation in common. -/
theorem Isolated.uses_apart (h : Isolated trampoline reserved m) (hnodup : m.accounts.Nodup)
    {one other : Holding} (hone : one ∈ m.holdings) (hother : other ∈ m.holdings)
    (hne : one ≠ other) {a b : Allocation} (ha : m.Uses one a) (hb : m.Uses other b) : a ≠ b := by
  rintro rfl
  rcases ha with himage | hstack
  · rcases hb with himage' | hstack'
    · -- Images at one place belong to tasks with one entry.
      have hbase : LinearWindow.kernel.toPhys one.entry = LinearWindow.kernel.toPhys other.entry :=
        himage.2.1.symm.trans himage'.2.1
      have hentry : one.entry = other.entry := by
        rw [← LinearWindow.toVirt_toPhys .kernel one.entry, hbase, LinearWindow.toVirt_toPhys]
      exact hne (List.inj_on_of_nodup_map h.entries hone hother hentry)
    · exact notMem_stacksOf_of_keepsImage hnodup himage (mem_stacksOf hother hstack')
  · rcases hb with himage' | hstack'
    · exact notMem_stacksOf_of_keepsImage hnodup himage' (mem_stacksOf hone hstack)
    · rw [accounts, Multiset.coe_nodup] at hnodup
      have hstacks := (List.nodup_append.1 (List.nodup_append.1 hnodup).2.1).2.1
      have hsymm : Std.Symm fun x y : Holding => List.Disjoint x.stacks y.stacks :=
        ⟨fun _ _ hdisjoint => hdisjoint.symm⟩
      have hapart := (List.nodup_flatMap.1 hstacks).2.forall hone hother hne
      exact hapart hstack hstack'

theorem holding_mem {task : Task} (htask : task ∈ m.scheduler.store.tasks) :
    task.holding ∈ m.holdings :=
  List.mem_map.2 ⟨task, htask, rfl⟩

/-- A leaf of a live task leads where it may. -/
theorem Isolated.mayMap (h : Isolated trampoline reserved m) {task : Task}
    (htask : task ∈ m.scheduler.store.tasks) {va : VirtAddr} {d : Descriptor}
    (hleaf : task.space.leaf m.memory.ram va = some d) : task.holding.MayMap trampoline d := by
  obtain ⟨low, hlow, hsame⟩ := exists_low_pageLeaf va
  refine (h.estate.housed task.holding (holding_mem htask)).leaves low hlow d ?_
  rw [← hsame, ← hleaf, AddressSpace.leaf_eq_leafAt]
  rfl

/-- A leaf of a task leads to one of its allocations or to the page of the return code. -/
theorem Isolated.leaf_uses (h : Isolated trampoline reserved m) {holding : Holding}
    (hmem : holding ∈ m.holdings) {d : Descriptor} (hd : holding.MayMap trampoline d) :
    (∃ a, m.Uses holding a ∧ d.address.frameNumber ∈ a.frames) ∨
      d.address.frameNumber = trampoline.frameNumber := by
  cases hd with
  | image inside =>
    obtain ⟨a, ha⟩ := h.images holding hmem
    exact Or.inl ⟨a, Or.inl ha, ha.2.2 inside⟩
  | userStack inside =>
    exact Or.inl ⟨_, Or.inr (List.mem_cons_of_mem _ List.mem_cons_self), inside⟩
  | kernelStack inside hidden => exact Or.inl ⟨_, Or.inr List.mem_cons_self, inside⟩
  | trampoline same fixed => exact Or.inr same

/-- What user mode may write is the image or the user stack. -/
theorem Isolated.writable_uses (h : Isolated trampoline reserved m) (hnodup : m.accounts.Nodup)
    {holding : Holding} (hmem : holding ∈ m.holdings) {d : Descriptor}
    (hd : holding.MayMap trampoline d) (hwritable : d.UserWritable) :
    ∃ a, m.Uses holding a ∧ d.address.frameNumber ∈ a.frames ∧
      a ≠ holding.kernelStack.allocation := by
  obtain ⟨huser, hwrite⟩ := hwritable
  cases hd with
  | image inside =>
    obtain ⟨a, ha⟩ := h.images holding hmem
    refine ⟨a, Or.inl ha, ha.2.2 inside, ?_⟩
    rintro rfl
    exact notMem_stacksOf_of_keepsImage hnodup ha (mem_stacksOf hmem List.mem_cons_self)
  | userStack inside =>
    refine ⟨_, Or.inr (List.mem_cons_of_mem _ List.mem_cons_self), inside, fun heq => ?_⟩
    -- The two stacks differ in size.
    obtain ⟨hkernel, hstack⟩ := (h.estate.housed holding hmem).placed.sized
    have hsize : holding.userStack.size = holding.kernelStack.size := congrArg Allocation.size heq
    rw [hkernel, hstack] at hsize
    revert hsize
    decide
  | kernelStack inside hidden =>
    rw [hidden] at huser
    cases huser
  | trampoline same fixed =>
    rw [fixed] at hwrite
    cases hwrite

/-! ## Separation -/

/-- The frame numbered `n` is in use, and of all tasks only `task` can get at it: no other
    task has a leaf that leads there, and it is neither a table nor a kernel stack of any. -/
structure Private (m : Machine FramePool) (task : Task) (n : Nat) : Prop where
  held : n ∈ m.memory.frames.heldFrames
  unshared : ∀ other ∈ m.scheduler.store.tasks, other ≠ task → ∀ va d,
    other.space.leaf m.memory.ram va = some d → d.address.frameNumber ≠ n
  noTable : ∀ other ∈ m.scheduler.store.tasks, ∀ path table, path.length ≤ 3 →
    findTable m.memory.ram other.space.root path = some table → table.frameNumber ≠ n
  noKernelStack : ∀ other ∈ m.scheduler.store.tasks,
    n ∉ framesFrom other.kernelStack.base other.kernelStack.size

end

/-- After every run that gives fresh images to new tasks, what a task may write in user mode
    is its own. The page of the return code is one that the pool never hands out. -/
theorem tasks_isolated {P S : Type} [Platform P] [ImageSource S] [LawfulImageSource S]
    {trampoline : PhysAddr} (haligned : trampoline.pageOffset = 0)
    (hbelow : trampoline.toNat < 2 ^ 48) {start : Memory FramePool} (hfits : start.frames.Fits)
    (hwithheld : start.frames.Withholds trampoline) {m : Machine FramePool}
    (run : Run trampoline (GivesFreshImages (P := P) (S := S)) (fresh start) m) {task : Task}
    (htask : task ∈ m.scheduler.store.tasks) {va : VirtAddr} {d : Descriptor}
    (hleaf : task.space.leaf m.memory.ram va = some d) (hwritable : d.UserWritable) :
    m.Private task d.address.frameNumber := by
  obtain ⟨log, audited, isolated⟩ := run.isolated haligned hbelow hfits
  have booked := audited.booked hfits.addressable
  have hnodup := (Multiset.nodup_add.1 booked.nodup).1
  have hmem := holding_mem htask
  obtain ⟨a, ha, hframe, hkernel⟩ :=
    isolated.writable_uses hnodup hmem (isolated.mayMap htask hleaf) hwritable
  have hbooks {holding : Holding} (hholding : holding ∈ m.holdings) {b : Allocation}
      (hb : m.Uses holding b) : b ∈ m.accounts + tablesOf log :=
    Multiset.mem_add.2 (Or.inl (mem_accounts_of_uses hholding hb))
  have hother {other : Task} (hin : other ∈ m.scheduler.store.tasks) (hne : other ≠ task) :
      other.holding ≠ task.holding := fun heq =>
    hne (List.inj_on_of_nodup_map audited.seated.linked.liveIds_nodup hin htask
      (congrArg Holding.id heq))
  have hapart {holding : Holding} (hholding : holding ∈ m.holdings) {b : Allocation}
      (hb : m.Uses holding b) (hne : b ≠ a) : d.address.frameNumber ∉ b.frames := fun hin =>
    Set.disjoint_left.1 (booked.disjoint b (hbooks hholding hb) a (hbooks hmem ha) hne) hin hframe
  refine ⟨booked.frames_subset (hbooks hmem ha) hframe, ?_, ?_, ?_⟩
  -- A leaf of another task leads to an allocation of that task or to the return code.
  · intro other hin hne va' d' hleaf' heq
    have hholding := holding_mem hin
    rcases isolated.leaf_uses hholding (isolated.mayMap hin hleaf') with ⟨b, hb, hb'⟩ | htrampoline
    · rw [heq] at hb'
      exact hapart hholding hb
        (isolated.uses_apart hnodup hholding hmem (hother hin hne) hb ha) hb'
    · rw [← heq, htrampoline] at hframe
      exact booked.notMem_of_withholds audited.history.length_used hwithheld (hbooks hmem ha) hframe
  -- Tables stand apart from everything on the books.
  · intro other hin path table hdepth hfound heq
    have hreached : Reached m.memory.ram (rootsOf m.holdings) other.space.root path table :=
      ⟨⟨other.holding, holding_mem hin, rfl⟩, hdepth, hfound⟩
    refine isolated.estate.carries.notMem_others hreached (Or.inr ⟨a, ?_, heq ▸ hframe⟩)
    exact mem_accounts_of_uses hmem ha
  -- Kernel stacks are allocations, the task's own one included.
  · intro other hin
    have hholding := holding_mem hin
    have huses : m.Uses other.holding other.kernelStack.allocation := Or.inr List.mem_cons_self
    by_cases hsame : other = task
    · rw [hsame] at huses ⊢
      exact hapart hmem huses (Ne.symm hkernel)
    · exact hapart hholding huses
        (isolated.uses_apart hnodup hholding hmem (hother hin hsame) huses ha)

/-- A task that is launched beside the idle task: the frame of its image is private. -/
theorem tasks_isolated_launch :
    ∃ m : Machine FramePool, ∃ task, m.holdings.map (·.id) = [⟨0⟩, ⟨1⟩] ∧
      m.scheduler.store.get? ⟨1⟩ = some task ∧ m.Private task 0x10c := by
  let start : Memory FramePool := ⟨.zero, .ofPages 48⟩
  have hfits : start.frames.Fits := FramePool.fits_ofPages (by decide)
  have hwithheld : start.frames.Withholds ⟨0x9000⟩ := FramePool.withholds_of_lt (by decide)
  have run := run_idleMachine.step
    (.ask (.prepare ⟨[("vm.img", [1, 2, 3])]⟩ "vm.img" .spawn) Recorder.new) (by rintro _ _ ⟨⟩)
  obtain ⟨m, run, hids, hfound⟩ : ∃ m, Run ⟨0x9000⟩
      (GivesFreshImages (P := Recorder) (S := ImageTable)) (fresh start) m ∧
      m.holdings.map (·.id) = [⟨0⟩, ⟨1⟩] ∧ ((m.scheduler.store.get? ⟨1⟩).bind fun task =>
        task.space.leaf m.memory.ram Layout.imageBase) = some ⟨0x10c447⟩ :=
    ⟨_, run, by decide +kernel, by decide +kernel⟩
  obtain ⟨task, hget, hleaf⟩ := Option.bind_eq_some_iff.1 hfound
  have hprivate := tasks_isolated (by decide) (by decide) hfits hwithheld run
    (TaskStore.mem_of_get? hget) hleaf ⟨by decide, by decide⟩
  exact ⟨m, task, hids, hget, hprivate⟩

end Machine

end TaskKernel
