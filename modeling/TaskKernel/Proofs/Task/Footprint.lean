/-
  TaskKernel.Proofs.Task.Footprint

  What tasks cost in frames. Mapping takes tables and returns nothing; building a task takes
  two stacks besides, and returns both if it fails at any later point; releasing a task
  returns both.
-/
import TaskKernel.Proofs.Memory.Turnover
import TaskKernel.Proofs.PageTable.Mapping
import TaskKernel.Proofs.Task.Handlers

namespace TaskKernel

section

variable {F : Type} [FrameSource F]

/-! ## Mapping -/

theorem reachTable_takesTables (page : VirtAddr) (mem : Memory F) (table : PhysAddr)
    (path : List (Fin 512)) : TakesTables mem (reachTable page mem table path).memory := by
  induction path generalizing mem table with
  | nil => exact .refl mem
  | cons slot path ih =>
    have htable := TakesTables.allocateTable mem
    rw [reachTable]
    dsimp only
    split
    -- A table that is missing is taken and linked before the walk goes on.
    · split
      · next heq =>
        rw [heq] at htable
        exact htable
      · next heq =>
        rw [heq] at htable
        exact htable.trans ((TakesTables.setEntry _ _ _ (Forest.Growth.isTable_link _)).trans
          (ih _ _))
    · split
      · exact ih mem _
      · exact .refl mem

namespace AddressSpace

theorem new_takesTables (mem : Memory F) : TakesTables mem (AddressSpace.new mem).2 := by
  have htable := TakesTables.allocateTable mem
  rw [AddressSpace.new]
  split
  · next heq =>
    rw [heq] at htable
    exact htable
  · next heq =>
    rw [heq] at htable
    exact htable

theorem mapPages_takesTables (flags : Flags) (space : AddressSpace) (mem : Memory F) (va : VirtAddr)
    (pa : PhysAddr) (count : Nat) :
    TakesTables mem (space.mapPages flags mem va pa count).2.2 ∧
      (space.mapPages flags mem va pa count).2.1.root = space.root := by
  induction count generalizing space mem va pa with
  | zero => exact ⟨.refl mem, rfl⟩
  | succ count ih =>
    have hwalk := reachTable_takesTables va mem space.root va.tablePath
    rw [mapPages]
    dsimp only
    split
    · exact ⟨hwalk, rfl⟩
    · obtain ⟨hrest, hroot⟩ := ih { space with tables := space.tables +
        (reachTable va mem space.root va.tablePath).created } _ (va.plus pageSize) (pa.plus pageSize)
      exact ⟨hwalk.trans ((TakesTables.setEntry _ _ _ (isTable_page pa flags)).trans hrest), hroot⟩

theorem map_takesTables (space : AddressSpace) (mem : Memory F) (va : VirtAddr) (pa : PhysAddr)
    (size : Nat) (flags : Flags) :
    TakesTables mem (space.map mem va pa size flags).2.2 ∧
      (space.map mem va pa size flags).2.1.root = space.root := by
  rw [AddressSpace.map]
  split
  · exact ⟨.refl mem, rfl⟩
  · split
    · exact ⟨.refl mem, rfl⟩
    · exact mapPages_takesTables flags space mem _ _ _

/-- A space stays under its root. -/
theorem root_of_map {space space' : AddressSpace} {mem mem' : Memory F} {va : VirtAddr}
    {pa : PhysAddr} {size : Nat} {flags : Flags} {result : Except MapError Unit}
    (h : space.map mem va pa size flags = (result, space', mem')) : space'.root = space.root := by
  have hroot := (space.map_takesTables mem va pa size flags).2
  rwa [h] at hroot

/-- Mapping adds tables to a space and takes none away. -/
theorem mapPages_tables_le (flags : Flags) (space : AddressSpace) (mem : Memory F) (va : VirtAddr)
    (pa : PhysAddr) (count : Nat) :
    space.tables ≤ (space.mapPages flags mem va pa count).2.1.tables := by
  induction count generalizing space mem va pa with
  | zero => exact Nat.le_refl _
  | succ count ih =>
      rw [mapPages]
      dsimp only
      split
      · exact Nat.le_add_right _ _
      · have hrest := ih { space with tables := space.tables +
          (reachTable va mem space.root va.tablePath).created }
        exact (Nat.le_add_right _ _).trans (hrest _ _ _)

theorem map_tables_le (space : AddressSpace) (mem : Memory F) (va : VirtAddr) (pa : PhysAddr)
    (size : Nat) (flags : Flags) :
    space.tables ≤ (space.map mem va pa size flags).2.1.tables := by
  rw [map]
  split
  · exact Nat.le_refl _
  · split
    · exact Nat.le_refl _
    · exact mapPages_tables_le flags space mem _ _ _

end AddressSpace

/-! ## Tasks -/

/-- A stack as an allocation. -/
def Stack.allocation (stack : Stack) : Allocation := ⟨stack.base, stack.size⟩

/-- Returning both stacks of a task. -/
theorem stacks_returned (mem : Memory F) (kernelStack userStack : Stack) :
    Turnover mem {kernelStack.allocation, userStack.allocation} 0
      ((mem.release kernelStack.base kernelStack.size).release userStack.base userStack.size) := by
  have kernel := (Turnover.release mem kernelStack.allocation).add {userStack.allocation}
  rw [zero_add] at kernel
  exact kernel.trans (.release _ userStack.allocation)

/-- What a task holds for as long as it lives; none of it ever changes. -/
structure Holding where
  id : TaskId
  entry : VirtAddr
  imageSize : Nat
  kernelStack : Stack
  userStack : Stack
  root : PhysAddr
deriving DecidableEq, Repr

/-- The allocations that go back when the task is reaped. -/
def Holding.stacks (h : Holding) : List Allocation :=
  [h.kernelStack.allocation, h.userStack.allocation]

/-- The stacks have their fixed sizes. -/
def Holding.Sized (h : Holding) : Prop :=
  h.kernelStack.size = Layout.kernelStackSize ∧ h.userStack.size = Layout.userStackSize

/-- Where the kernel keeps the program image. -/
def Holding.image (h : Holding) : Allocation :=
  ⟨LinearWindow.kernel.toPhys h.entry, pageRoundUp h.imageSize⟩

namespace Task

def holding (task : Task) : Holding :=
  ⟨task.id, task.entry, task.imageSize, task.kernelStack, task.userStack, task.space.root⟩

theorem mapLayout_takesTables (space : AddressSpace) (mem : Memory F) (kernelStack userStack : Stack)
    (entry : VirtAddr) (imageSize : Nat) :
    TakesTables mem (mapLayout space mem kernelStack userStack entry imageSize).2.2 := by
  have himage := space.map_takesTables mem Layout.imageBase (LinearWindow.kernel.toPhys entry) imageSize
    .userNormal
  rw [mapLayout]
  split
  · next heq =>
    rw [heq] at himage
    exact himage.1
  · next space₁ mem₁ heq =>
    rw [heq] at himage
    have hstack := space₁.map_takesTables mem₁ Layout.userStackWindow userStack.base
      Layout.userStackSize .userNormal
    split
    · next heq' =>
      rw [heq'] at hstack
      exact himage.1.trans hstack.1
    · next space₂ mem₂ heq' =>
      rw [heq'] at hstack
      exact himage.1.trans (hstack.1.trans (space₂.map_takesTables mem₂ _ _ _ _).1)

theorem buildSpace_takesTables (mem : Memory F) (kernelStack userStack : Stack) (entry : VirtAddr)
    (imageSize : Nat) :
    TakesTables mem (buildSpace mem kernelStack userStack entry imageSize).2 := by
  have hnew := AddressSpace.new_takesTables mem
  rw [buildSpace]
  split
  · next heq =>
    rw [heq] at hnew
    exact hnew
  · next space mem₁ heq =>
    rw [heq] at hnew
    have hlayout := mapLayout_takesTables space mem₁ kernelStack userStack entry imageSize
    split
    · next heq' =>
      rw [heq'] at hlayout
      exact hnew.trans hlayout
    · next heq' =>
      rw [heq'] at hlayout
      exact hnew.trans hlayout

/-- How a construction can end. -/
inductive BuildEnd (mem : Memory F) (id : TaskId) (entry : VirtAddr) (imageSize : Nat) :
    Except TaskError Task → Memory F → Prop
  | noKernelStack {mem₁ : Memory F} (kernel : mem.allocate Layout.kernelStackSize = (none, mem₁)) :
      BuildEnd mem id entry imageSize (.error (.outOfMemory .kernelStack)) mem₁
  | noUserStack {kernelBase : PhysAddr} {mem₁ mem₂ : Memory F}
      (kernel : mem.allocate Layout.kernelStackSize = (some kernelBase, mem₁))
      (user : mem₁.allocate Layout.userStackSize = (none, mem₂)) :
      BuildEnd mem id entry imageSize (.error (.outOfMemory .userStack))
        (mem₂.release kernelBase Layout.kernelStackSize)
  | noSpace {kernelBase userBase : PhysAddr} {mem₁ mem₂ mem₃ : Memory F} {e : MapError}
      (kernel : mem.allocate Layout.kernelStackSize = (some kernelBase, mem₁))
      (user : mem₁.allocate Layout.userStackSize = (some userBase, mem₂))
      (space : buildSpace mem₂ ⟨kernelBase, Layout.kernelStackSize⟩
        ⟨userBase, Layout.userStackSize⟩ entry imageSize = (.error e, mem₃)) :
      BuildEnd mem id entry imageSize (.error (.ofMapError e))
        ((mem₃.release kernelBase Layout.kernelStackSize).release userBase Layout.userStackSize)
  | built {kernelBase userBase : PhysAddr} {mem₁ mem₂ mem' : Memory F} {task : Task}
      (kernel : mem.allocate Layout.kernelStackSize = (some kernelBase, mem₁))
      (user : mem₁.allocate Layout.userStackSize = (some userBase, mem₂))
      (space : buildSpace mem₂ ⟨kernelBase, Layout.kernelStackSize⟩
        ⟨userBase, Layout.userStackSize⟩ entry imageSize = (.ok task.space, mem'))
      (holding : task.holding = ⟨id, entry, imageSize, ⟨kernelBase, Layout.kernelStackSize⟩,
        ⟨userBase, Layout.userStackSize⟩, task.space.root⟩) :
      BuildEnd mem id entry imageSize (.ok task) mem'

theorem build_end {mem mem' : Memory F} {id : TaskId} {entry : VirtAddr} {imageSize : Nat}
    {result : Except TaskError Task} (h : Task.build mem id entry imageSize = (result, mem')) :
    BuildEnd mem id entry imageSize result mem' := by
  rw [Task.build] at h
  split at h
  · next hkernel =>
    cases h
    exact .noKernelStack hkernel
  · next hkernel =>
    dsimp only at h
    split at h
    · next huser =>
      cases h
      exact .noUserStack hkernel huser
    · next huser =>
      split at h
      · next hspace =>
        cases h
        exact .noSpace hkernel huser hspace
      · next hspace =>
        cases h
        exact .built hkernel huser hspace rfl

/-- The stacks that a finished construction leaves with its task. -/
def builtStacks : Except TaskError Task → Multiset Allocation
  | .ok task => task.holding.stacks
  | .error _ => 0

/-- Taking both stacks of a task. -/
theorem stacks_taken {mem mem₁ mem₂ : Memory F} {kernelBase userBase : PhysAddr}
    (kernel : mem.allocate Layout.kernelStackSize = (some kernelBase, mem₁))
    (user : mem₁.allocate Layout.userStackSize = (some userBase, mem₂)) :
    Turnover mem 0 {⟨kernelBase, Layout.kernelStackSize⟩, ⟨userBase, Layout.userStackSize⟩} mem₂ := by
  have both := (Turnover.of_allocate_some kernel).trans ((Turnover.of_allocate_some user).on _)
  rwa [add_comm] at both

/-- A construction takes the two stacks of the task, or takes and returns them. -/
theorem build_turnover {mem mem' : Memory F} {id : TaskId} {entry : VirtAddr} {imageSize : Nat}
    {result : Except TaskError Task} (h : Task.build mem id entry imageSize = (result, mem')) :
    Turnover mem 0 (builtStacks result) mem' := by
  cases build_end h with
  | noKernelStack kernel => exact .of_allocate_none kernel
  | @noUserStack kernelBase _ mem₂ kernel user =>
    exact (Turnover.of_allocate_some kernel).trans
      (((Turnover.of_allocate_none user).keep _).trans (.release mem₂ _))
  | @noSpace kernelBase userBase _ mem₂ mem₃ _ kernel user space =>
    -- Both stacks go back; the tables that were made for the space do not.
    have hspace := buildSpace_takesTables mem₂ ⟨kernelBase, Layout.kernelStackSize⟩
      ⟨userBase, Layout.userStackSize⟩ entry imageSize
    rw [space] at hspace
    have returned := stacks_returned mem₃ ⟨kernelBase, Layout.kernelStackSize⟩
      ⟨userBase, Layout.userStackSize⟩
    exact (stacks_taken kernel user).trans ((hspace.turnover.keep _).trans returned)
  | @built kernelBase userBase _ mem₂ _ task kernel user space holding =>
    have hspace := buildSpace_takesTables mem₂ ⟨kernelBase, Layout.kernelStackSize⟩
      ⟨userBase, Layout.userStackSize⟩ entry imageSize
    rw [space] at hspace
    rw [builtStacks, holding]
    exact (stacks_taken kernel user).trans (hspace.turnover.keep _)

/-- A finished task holds what it was built from, with stacks of the fixed sizes. -/
theorem holding_of_build {mem mem' : Memory F} {id : TaskId} {entry : VirtAddr} {imageSize : Nat}
    {task : Task} (h : Task.build mem id entry imageSize = (.ok task, mem')) :
    ∃ kernelBase userBase root, task.holding = ⟨id, entry, imageSize,
      ⟨kernelBase, Layout.kernelStackSize⟩, ⟨userBase, Layout.userStackSize⟩, root⟩ := by
  cases build_end h with
  | built kernel user space holding => exact ⟨_, _, _, holding⟩

/-- Installing a handler changes the signals of a task, and maps the page of the signal
    return code or leaves memory alone. -/
theorem registerHandler_cases (task : Task) (mem : Memory F) (signum : Int) (addr : Word)
    (trampoline : PhysAddr) :
    (∃ signals, (task.registerHandler mem signum addr trampoline).2 = ({ task with signals }, mem)) ∨
    (∃ signals result space mem', task.space.map mem Layout.trampolineWindow trampoline pageSize
        .userCodeReadOnly = (result, space, mem') ∧
      (task.registerHandler mem signum addr trampoline).2 = ({ task with signals, space }, mem')) := by
  have hend := task.registerHandler_end mem signum addr trampoline
  generalize task.registerHandler mem signum addr trampoline = outcome at hend
  cases hend with
  | refused => exact Or.inl ⟨_, rfl⟩
  | unmapped call => exact Or.inr ⟨_, _, _, _, call, rfl⟩
  | mapped _ _ _ call => exact Or.inr ⟨_, _, _, _, call, rfl⟩
  | unneeded => exact Or.inl ⟨_, rfl⟩

/-- Installing a handler may take tables; the task keeps what it holds and its place. -/
theorem registerHandler_turnover (task : Task) (mem : Memory F) (signum : Int) (addr : Word)
    (trampoline : PhysAddr) :
    Turnover mem 0 0 (task.registerHandler mem signum addr trampoline).2.2 ∧
      (task.registerHandler mem signum addr trampoline).2.1.holding = task.holding ∧
      (task.registerHandler mem signum addr trampoline).2.1.queue = task.queue ∧
      (task.registerHandler mem signum addr trampoline).2.1.state = task.state := by
  rcases task.registerHandler_cases mem signum addr trampoline with
    ⟨signals, heq⟩ | ⟨signals, result, space, mem', hmap, heq⟩
  · rw [heq]
    exact ⟨.refl mem 0, rfl, rfl, rfl⟩
  · obtain ⟨hmapping, hroot⟩ := task.space.map_takesTables mem Layout.trampolineWindow trampoline
      pageSize .userCodeReadOnly
    rw [hmap] at hmapping hroot
    rw [heq]
    exact ⟨hmapping.turnover, by rw [holding, holding, hroot], rfl, rfl⟩

end Task

end

end TaskKernel
