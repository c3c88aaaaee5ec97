/-
  TaskKernel.Proofs.Machine.Tabled

  Where the tables of a machine are. Of all spaces that were ever made the machine knows the
  roots, and each frame that is in use and not on its accounts holds a table that a walk from
  one of these roots leads to. Tasks come and go, and some cannot be finished; the tables
  that were made for them stay where they are.
-/
import TaskKernel.Proofs.Machine.Accounting
import TaskKernel.Proofs.Machine.Estate
import TaskKernel.Proofs.Memory.Recording
import TaskKernel.Proofs.PageTable.TablesOnly
import TaskKernel.Proofs.Task.LaidOut

namespace TaskKernel

/-! ## Building tasks -/

section

variable {F : Type} [FrameSource F]

/-- Three calls leave the space under its root. -/
theorem Task.root_of_mapLayout {space space' : AddressSpace} {mem mem' : Memory F}
    {kernelStack userStack : Stack} {entry : VirtAddr} {imageSize : Nat}
    (h : Task.mapLayout space mem kernelStack userStack entry imageSize = (.ok (), space', mem')) :
    space'.root = space.root := by
  obtain ⟨space₁, mem₁, space₂, mem₂, image, user, kernel⟩ := Task.mapLayout_ok h
  rw [AddressSpace.root_of_map kernel, AddressSpace.root_of_map user,
    AddressSpace.root_of_map image]

/-- A space that was built is the one that was made first. -/
theorem Task.root_of_buildSpace {mem mem' : Memory F} {kernelStack userStack : Stack}
    {entry : VirtAddr} {imageSize : Nat} {space : AddressSpace}
    (h : Task.buildSpace mem kernelStack userStack entry imageSize = (.ok space, mem')) :
    (AddressSpace.new mem).1.toOption.map AddressSpace.root = some space.root := by
  obtain ⟨space₁, mem₁, hnew, hlayout⟩ := Task.buildSpace_ok h
  rw [hnew, Task.root_of_mapLayout hlayout]
  rfl

/-- The space of a task that was built is the one that was made for it. -/
theorem Task.rootMade?_of_build {mem mem' : Memory F} {id : TaskId} {entry : VirtAddr}
    {imageSize : Nat} {task : Task}
    (h : Task.build mem id entry imageSize = (.ok task, mem')) :
    Task.rootMade? mem = some task.holding.root := by
  cases Task.build_end h with
  | built kernel user space holding =>
    rw [Task.rootMade?, kernel]
    dsimp only
    rw [user]
    exact Task.root_of_buildSpace space

namespace FrameLedger.TablesOnly

variable {L : FrameLedger F} {mem mem' : Memory F} {roots : List PhysAddr} {others : Set Nat}

theorem mapLayout (h : L.TablesOnly mem roots) {space : AddressSpace}
    (hspace : space.root ∈ roots) (kernelStack userStack : Stack) (entry : VirtAddr)
    (imageSize : Nat) :
    L.TablesOnly (Task.mapLayout space mem kernelStack userStack entry imageSize).2.2 roots := by
  rw [Task.mapLayout]
  split
  · next image => exact (h.map hspace image).1
  · next image =>
    obtain ⟨afterImage, hspace₁⟩ := h.map hspace image
    split
    · next user => exact (afterImage.map hspace₁ user).1
    · next space₂ mem₂ user =>
      obtain ⟨afterUser, hspace₂⟩ := afterImage.map hspace₁ user
      rcases kernel : space₂.map mem₂ Layout.kernelStackWindow kernelStack.base
        Layout.kernelStackSize .kernelData with ⟨result, space₃, mem₃⟩
      exact (afterUser.map hspace₂ kernel).1

/-- A space that cannot be laid out keeps its root, and the tables that it has got. -/
theorem buildSpace (h : L.TablesOnly mem roots) (kernelStack userStack : Stack)
    (entry : VirtAddr) (imageSize : Nat) :
    L.TablesOnly (Task.buildSpace mem kernelStack userStack entry imageSize).2
      (roots ++ ((AddressSpace.new mem).1.toOption.map AddressSpace.root).toList) := by
  have made := h.new
  rw [Task.buildSpace]
  split
  · next heq =>
    rw [heq] at made ⊢
    exact made
  · next space mem₁ heq =>
    rw [heq] at made ⊢
    have hspace : space.root ∈ roots ++ [space.root] :=
      List.mem_append_right _ List.mem_cons_self
    have laidOut := made.mapLayout hspace kernelStack userStack entry imageSize
    dsimp only at laidOut
    split
    · next heq' =>
      rw [heq'] at laidOut
      exact laidOut
    · next heq' =>
      rw [heq'] at laidOut
      exact laidOut

/-- A construction leaves its stacks in other use, or gives them back; the space that it
    made remains in both cases. -/
theorem build (h : (L.besides others).TablesOnly mem roots) (hreturns : L.Returns) {id : TaskId}
    {entry : VirtAddr} {imageSize : Nat} {result : Except TaskError Task}
    (heq : Task.build mem id entry imageSize = (result, mem')) :
    (L.besides (others ∪ framesOf (Task.builtStacks result))).TablesOnly mem'
      (roots ++ (Task.rootMade? mem).toList) := by
  cases Task.build_end heq with
  | noKernelStack kernel =>
    rw [Task.rootMade?, kernel, Task.builtStacks, framesOf_zero, Set.union_empty]
    exact (List.append_nil roots).symm ▸ h.refuse kernel
  | noUserStack kernel user =>
    obtain ⟨reserved, haligned, hapart⟩ := h.reserve kernel
    rw [Task.rootMade?, kernel]
    dsimp only
    rw [user, Task.builtStacks, framesOf_zero, Set.union_empty]
    exact (List.append_nil roots).symm ▸ (reserved.refuse user).giveBack hreturns haligned hapart
  | @noSpace kernelBase userBase _ _ _ _ kernel user space =>
    obtain ⟨kernelStack, alignedKernel, apartKernel⟩ := h.reserve kernel
    obtain ⟨bothStacks, alignedUser, apartBoth⟩ := kernelStack.reserve user
    obtain ⟨apartUser, kernelUser⟩ := Set.disjoint_union_left.1 apartBoth
    have built := bothStacks.buildSpace ⟨kernelBase, Layout.kernelStackSize⟩
      ⟨userBase, Layout.userStackSize⟩ entry imageSize
    rw [space] at built
    rw [Task.rootMade?, kernel]
    dsimp only
    rw [user, Task.builtStacks, framesOf_zero, Set.union_empty]
    -- The kernel stack goes back first, while the user stack is still in other use.
    rw [Set.union_right_comm] at built
    exact (built.giveBack hreturns alignedKernel
      (Set.disjoint_union_left.2 ⟨apartKernel, kernelUser.symm⟩)).giveBack hreturns alignedUser
        apartUser
  | @built kernelBase userBase _ _ _ _ kernel user space holding =>
    obtain ⟨kernelStack, -, -⟩ := h.reserve kernel
    obtain ⟨bothStacks, -, -⟩ := kernelStack.reserve user
    have built := bothStacks.buildSpace ⟨kernelBase, Layout.kernelStackSize⟩
      ⟨userBase, Layout.userStackSize⟩ entry imageSize
    rw [space] at built
    rw [Task.rootMade?, kernel]
    dsimp only
    rw [user, Task.builtStacks, framesOf_stacks, holding, ← Set.union_assoc]
    exact built

theorem registerHandler (h : L.TablesOnly mem roots) {task : Task}
    (hroot : task.space.root ∈ roots) (signum : Int) (addr : Word) (trampoline : PhysAddr) :
    L.TablesOnly (task.registerHandler mem signum addr trampoline).2.2 roots := by
  rcases task.registerHandler_cases mem signum addr trampoline with
    ⟨signals, heq⟩ | ⟨signals, result, space, mem', hmap, heq⟩
  · rw [heq]
    exact h
  · rw [heq]
    exact (h.map hroot hmap).1

/-- Ranges that do not overlap go back one after the other. -/
theorem releaseAll {back : List Allocation}
    (h : (L.besides (others ∪ framesOf ↑back)).TablesOnly mem roots) (hreturns : L.Returns)
    (haligned : ∀ a ∈ back, a.base.pageOffset = 0)
    (hpairwise : back.Pairwise fun a b => Disjoint a.frames b.frames)
    (hapart : ∀ a ∈ back, Disjoint others a.frames) :
    (L.besides others).TablesOnly (mem.releaseAll back) roots := by
  induction back generalizing mem with
  | nil =>
    rw [Multiset.coe_nil, framesOf_zero, Set.union_empty] at h
    exact h
  | cons a back ih =>
    obtain ⟨hfirst, hrest⟩ := List.pairwise_cons.1 hpairwise
    obtain ⟨alignedFirst, alignedRest⟩ := List.forall_mem_cons.1 haligned
    obtain ⟨apartFirst, apartRest⟩ := List.forall_mem_cons.1 hapart
    have hback : Disjoint (framesOf ↑back) a.frames :=
      Set.disjoint_left.2 fun n ⟨b, hb, hn⟩ hn' => Set.disjoint_left.1 (hfirst b hb) hn' hn
    rw [← Multiset.cons_coe, ← Multiset.singleton_add, framesOf_add, framesOf_singleton,
      Set.union_comm a.frames, ← Set.union_assoc] at h
    exact ih (h.giveBack hreturns alignedFirst (Set.disjoint_union_left.2 ⟨apartFirst, hback⟩))
      alignedRest hrest apartRest

end FrameLedger.TablesOnly

end

/-! ## Which request makes which space -/

namespace Request

variable {F S : Type} [FrameSource F] [ImageSource S] {mem mem₁ : Memory F} {request : Request S}

/-- Who asks for no task makes no space. -/
theorem rootMade?_of_quiet (quiet : ¬ request.Builds) : request.rootMade? mem = none := by
  cases request with
  | init entry => exact absurd trivial quiet
  | create entry imageSize => exact absurd trivial quiet
  | prepare images name mode => exact if_pos (not_not.1 quiet)
  | _ => rfl

theorem rootMade?_of_image {entry : VirtAddr} {imageSize : Nat}
    (asked : request.image? = some (entry, imageSize)) :
    request.rootMade? mem = Task.rootMade? mem := by
  cases request with
  | init | create => rfl
  | _ => cases asked

variable {images : S} {name : String} {mode : LaunchMode}

/-- A launch makes its space once the image is loaded. -/
theorem rootMade?_of_allocate {image : PhysAddr} (size : ImageSource.sizeOf images name ≠ 0)
    (allocate : mem.allocate (pageRoundUp (ImageSource.sizeOf images name)) = (some image, mem₁)) :
    (Request.prepare images name mode).rootMade? mem = Task.rootMade?
      (mem₁.mapRam fun ram => loadImage ram images name image (ImageSource.sizeOf images name)) := by
  rw [rootMade?, if_neg size, allocate]

theorem rootMade?_of_noRoom
    (allocate : mem.allocate (pageRoundUp (ImageSource.sizeOf images name)) = (none, mem₁)) :
    (Request.prepare images name mode).rootMade? mem = none := by
  rw [rootMade?, allocate]
  exact ite_self none

end Request

/-! ## Machines over a recorded pool -/

instance {F : Type} [LimitedSource F] : LimitedSource (Recorded F) where
  failAfter r n := { r with source := LimitedSource.failAfter r.source n }

theorem FrameLedger.returns_recorded : FramePool.ledger.recorded.Returns where
  valid hvalid := returns_pool.valid hvalid
  held hvalid := returns_pool.held hvalid

namespace Machine

/-- A frame in use that is not on the accounts holds a table of one of the spaces that were
    made, and the spaces of all tasks are among these. -/
structure Tabled (m : Machine (Recorded FramePool)) : Prop where
  tables : (FramePool.ledger.recorded.besides (framesOf m.accounts)).TablesOnly m.memory m.roots
  rooted : ∀ h ∈ m.holdings, h.root ∈ m.roots

/-- At first there is neither a space nor a frame in use. -/
theorem tabled_fresh {start : Memory (Recorded FramePool)} (hfits : start.frames.source.Fits)
    (hfree : start.frames.source.heldFrames = ∅) : Tabled (fresh start) where
  tables := by
    have hroots : {root : PhysAddr | root ∈ (fresh start).roots} = ∅ :=
      Set.eq_empty_of_forall_notMem fun root => List.not_mem_nil
    have haccounts : framesOf (fresh start).accounts = ∅ := framesOf_zero
    refine ⟨⟨⟨hfits, ?_⟩, ?_⟩, ?_, List.forall_mem_nil _⟩
    · rw [haccounts]
      exact Set.empty_subset _
    · rw [hroots]
      exact forest_empty _ _
    · have hheld : FramePool.ledger.recorded.held start.frames = ∅ := hfree
      rintro n ⟨hn, -⟩
      rw [show (fresh start).memory.frames = start.frames from rfl, hheld] at hn
      exact absurd hn (Set.notMem_empty n)
  rooted := List.forall_mem_nil _

namespace Tabled

variable {m m' : Machine (Recorded FramePool)}

/-- More comes to the accounts, and more spaces are made. -/
theorem grow (h : Tabled m) (supplies images : List Allocation) (news : List Holding)
    (made : List PhysAddr) (supplied : m'.supplied = m.supplied ++ supplies)
    (launched : m'.launched = m.launched ++ images) (holdings : m'.holdings = m.holdings ++ news)
    (roots : m'.roots = m.roots ++ made) {books : Multiset Allocation}
    (hbooks : ↑(supplies ++ (images ++ stacksOf news)) = books)
    (tables : (FramePool.ledger.recorded.besides (framesOf m.accounts ∪ framesOf books)).TablesOnly
      m'.memory (m.roots ++ made))
    (rooted : ∀ h ∈ news, h.root ∈ made) : Tabled m' where
  tables := by
    rw [accounts_append supplies images news supplied launched holdings, hbooks, framesOf_add,
      Set.union_comm, roots]
    exact tables
  rooted := by
    rw [holdings, roots]
    exact List.forall_mem_append.2 ⟨fun holding hmem => List.mem_append_left _
      (h.rooted holding hmem), fun holding hmem => List.mem_append_right _ (rooted holding hmem)⟩

/-- Nothing comes to the accounts and no space is made. -/
theorem keep (h : Tabled m) (accounts : m'.accounts = m.accounts)
    (holdings : m'.holdings = m.holdings) (roots : m'.roots = m.roots)
    (tables : (FramePool.ledger.recorded.besides (framesOf m.accounts)).TablesOnly m'.memory
      m.roots) : Tabled m' where
  tables := by
    rw [accounts, roots]
    exact tables
  rooted := by
    rw [holdings, roots]
    exact h.rooted

section

variable {P S : Type} [Platform P] [ImageSource S]

theorem limit (h : Tabled m) (trampoline : PhysAddr) (n : Nat) :
    Tabled (m.perform trampoline (.limit n : MachineRequest P S)) :=
  h.keep rfl rfl rfl (h.tables.of_ram_eq rfl h.tables.carries.valid rfl)

theorem supply (h : Tabled m) (trampoline : PhysAddr) (size : Nat) :
    Tabled (m.perform trampoline (.supply size : MachineRequest P S)) := by
  rw [perform]
  split
  · next heq => exact h.keep rfl rfl rfl (h.tables.refuse heq)
  · next base memory heq =>
    obtain ⟨reserved, -, -⟩ := h.tables.reserve heq
    refine h.grow [⟨base, size⟩] [] [] [] rfl (List.append_nil _).symm (List.append_nil _).symm
      (List.append_nil _).symm (Multiset.coe_singleton _) ?_ (List.forall_mem_nil _)
    rw [List.append_nil, framesOf_singleton]
    exact reserved

/-- The page of the signal return code may need tables of its own. -/
theorem handler (h : Tabled m) (seated : m.scheduler.Seated) (trampoline : PhysAddr)
    (id : TaskId) (signum : Int) (addr : Word) :
    Tabled (m.perform trampoline (.handler id signum addr : MachineRequest P S)) := by
  rw [perform]
  split
  · exact h
  · next task hget =>
    obtain ⟨-, hholding, hqueue, hstate⟩ :=
      task.registerHandler_turnover m.memory signum addr trampoline
    have hmem : task.holding ∈ m.holdings :=
      List.mem_map.2 ⟨task, TaskStore.mem_of_get? hget, rfl⟩
    have put := (seated.put hget hholding hqueue hstate).holdings
    exact h.keep (accounts_congr rfl rfl put) put rfl
      (h.tables.registerHandler (h.rooted _ hmem) signum addr trampoline)

/-- The stacks of the tasks that are gone go back. -/
theorem reaped (h : Tabled m) {reserved : Set Nat} {others : Multiset Allocation}
    (booked : FramePool.Booked reserved m.memory.frames.source (m.accounts + others))
    {gone : List Holding} {s' : Scheduler}
    (hperm : m.holdings.Perm (gone ++ s'.store.holdings)) :
    Tabled { m with scheduler := s', memory := m.memory.releaseAll (stacksOf gone) } := by
  have haccounts : m.accounts = ↑(stacksOf gone) +
      accounts { m with scheduler := s', memory := m.memory.releaseAll (stacksOf gone) } :=
    accounts_of_perm rfl rfl hperm
  have htables := h.tables
  -- What goes back leaves the accounts, and it was apart from all that stays on the books.
  rw [haccounts, add_assoc] at booked
  rw [haccounts, framesOf_add, Set.union_comm] at htables
  obtain ⟨placed, hpairwise, hapart⟩ := booked.goingBack h.tables.carries.valid.1
  rw [framesOf_add] at hapart
  refine ⟨htables.releaseAll FrameLedger.returns_recorded (fun a ha => (placed a ha).aligned)
    hpairwise fun a ha => (hapart a ha).mono_left ?_, fun holding hholding => ?_⟩
  · exact Set.subset_union_left.trans Set.subset_union_right
  · exact h.rooted holding (hperm.mem_iff.2 (List.mem_append_right gone hholding))

variable [LawfulImageSource S]

/-- Frames are taken for an image and the image is loaded there. -/
theorem loaded (h : Tabled m) (hpages : GrantsPages m.memory.frames) {images : S} {name : String}
    {image : PhysAddr} {mem₁ : Memory (Recorded FramePool)}
    (allocate : m.memory.allocate (pageRoundUp (ImageSource.sizeOf images name)) =
      (some image, mem₁)) :
    (FramePool.ledger.recorded.besides (framesOf m.accounts ∪
        framesFrom image (pageRoundUp (ImageSource.sizeOf images name)))).TablesOnly
      (mem₁.mapRam fun ram => loadImage ram images name image (ImageSource.sizeOf images name))
      m.roots ∧
    image.pageOffset = 0 ∧ Disjoint (framesOf m.accounts)
      (framesFrom image (pageRoundUp (ImageSource.sizeOf images name))) := by
  obtain ⟨reserved, haligned, hapart⟩ := h.tables.reserve allocate
  refine ⟨reserved.overwrite _ fun n hn => ?_, haligned, hapart⟩
  exact Scheduler.frame_loadImage_of_allocate hpages allocate fun hin => hn (Or.inr hin)

/-- However a request ends, the space that it made is known by its root. -/
theorem ask (h : Tabled m) (seated : m.scheduler.Seated) {reserved : Set Nat}
    {others : Multiset Allocation}
    (booked : FramePool.Booked reserved m.memory.frames.source (m.accounts + others))
    (trampoline : PhysAddr) (request : Request S) (hw : P) :
    Tabled (m.perform trampoline (.ask request hw)) := by
  have hpages : GrantsPages m.memory.frames := booked.addressable.grantsPages
  obtain ⟨effect, hseated⟩ := seated.effect m.memory hw request
  -- From here on only the way the request ended matters.
  rw [perform_ask]
  generalize m.scheduler.answer m.memory hw request = ended at effect hseated ⊢
  obtain ⟨answer, s', mem', hw'⟩ := ended
  dsimp only at effect hseated ⊢
  have rooted {mem : Memory (Recorded FramePool)} {id : TaskId} {entry : VirtAddr}
      {imageSize : Nat} {task : Task} (build : Task.build mem id entry imageSize = (.ok task, mem')) :
      ∀ h ∈ [task.holding], h.root ∈ (Task.rootMade? mem).toList := by
    rw [Task.rootMade?_of_build build]
    exact List.forall_mem_singleton.2 List.mem_cons_self
  cases effect with
  | kept quiet holdings launched =>
    rw [Scheduler.launchedImages_of_none launched, Request.rootMade?_of_quiet quiet, List.append_nil]
    exact h.keep (accounts_congr rfl rfl holdings) holdings (List.append_nil _) h.tables
  | created asked build holdings =>
    rw [Scheduler.launchedImages_of_none rfl, Request.rootMade?_of_image asked]
    exact h.grow [] [] [_] _ (List.append_nil _).symm rfl holdings rfl rfl
      (h.tables.build FrameLedger.returns_recorded build) (rooted build)
  | notCreated asked build =>
    rw [Scheduler.launchedImages_of_none rfl, Request.rootMade?_of_image asked]
    exact h.grow [] [] [] _ (List.append_nil _).symm rfl (List.append_nil _).symm rfl rfl
      (h.tables.build FrameLedger.returns_recorded build) (List.forall_mem_nil _)
  | @launched images name mode image task _ _ _ _ size allocate build holdings started =>
    -- The image is in other use from now on, and so are the stacks.
    obtain ⟨loaded, -, -⟩ := h.loaded hpages allocate
    have built := loaded.build FrameLedger.returns_recorded build
    have hbooks : (↑(Allocation.mk image (pageRoundUp (ImageSource.sizeOf images name)) ::
        stacksOf [task.holding]) : Multiset Allocation) =
      {⟨image, pageRoundUp (ImageSource.sizeOf images name)⟩} + Task.builtStacks (.ok task) := rfl
    rw [Scheduler.launchedImages_of_build hseated.linked build holdings started,
      Request.rootMade?_of_allocate size allocate]
    refine h.grow [] [_] [_] _ (List.append_nil _).symm rfl holdings rfl hbooks ?_
      (rooted build)
    rw [framesOf_add, framesOf_singleton, ← Set.union_assoc]
    exact built
  | notLaunched size allocate build =>
    -- The construction has given its frames back; the image goes back last.
    obtain ⟨loaded, haligned, hapart⟩ := h.loaded hpages allocate
    have failed := loaded.build FrameLedger.returns_recorded build
    rw [Task.builtStacks, framesOf_zero, Set.union_empty] at failed
    rw [Scheduler.launchedImages_of_none rfl, Request.rootMade?_of_allocate size allocate]
    refine h.grow [] [] [] _ (List.append_nil _).symm rfl (List.append_nil _).symm rfl
      Multiset.coe_nil ?_ (List.forall_mem_nil _)
    rw [framesOf_zero, Set.union_empty]
    exact failed.giveBack FrameLedger.returns_recorded haligned hapart
  | noRoom allocate =>
    rw [Scheduler.launchedImages_of_none rfl, Request.rootMade?_of_noRoom allocate,
      List.append_nil]
    exact h.keep rfl rfl (List.append_nil _) (h.tables.refuse allocate)
  | reaped buried =>
    obtain ⟨gone, hperm, rfl⟩ := buried.released seated.linked
    rw [Scheduler.launchedImages_of_none rfl, List.append_nil]
    have left := h.reaped booked hperm
    exact (List.append_nil m.roots).symm ▸ left

/-- Whatever is asked, no table is lost and nothing but tables goes without an account. -/
theorem perform (h : Tabled m) (seated : m.scheduler.Seated) {reserved : Set Nat}
    {others : Multiset Allocation}
    (booked : FramePool.Booked reserved m.memory.frames.source (m.accounts + others))
    (trampoline : PhysAddr) (request : MachineRequest P S) :
    Tabled (m.perform trampoline request) := by
  cases request with
  | limit n => exact h.limit trampoline n
  | supply size => exact h.supply trampoline size
  | handler id signum addr => exact h.handler seated trampoline id signum addr
  | ask request hw => exact h.ask seated booked trampoline request hw

end

end Tabled

end Machine

end TaskKernel
