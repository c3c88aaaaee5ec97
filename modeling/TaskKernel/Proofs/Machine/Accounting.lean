/-
  TaskKernel.Proofs.Machine.Accounting

  Exact accounts of a machine's frames. Whatever is asked of it and whenever the pool runs
  out, every return matches an allocation, and what is allocated is what the caller took,
  the images of launched tasks, the stacks of the live tasks and the translation tables.
-/
import TaskKernel.Proofs.Machine.Runs
import TaskKernel.Proofs.Memory.ImageCopy
import TaskKernel.Proofs.Memory.PoolBooks
import Mathlib.Tactic.Abel

namespace TaskKernel

/-! ## Returns in a row -/

theorem settle_returned (back : List Allocation) (rest : Multiset Allocation) :
    settle (↑back + rest) (back.map .returned) = some rest := by
  induction back with
  | nil => exact congrArg some (zero_add rest)
  | cons a back ih =>
    rw [List.map_cons, settle, FrameEvent.settle, ← Multiset.cons_coe, Multiset.cons_add,
      if_pos (Multiset.mem_cons_self a _), Multiset.erase_cons_head]
    exact ih

theorem tablesOf_returned (back : List Allocation) : tablesOf (back.map .returned) = 0 := by
  induction back with
  | nil => rfl
  | cons a back ih => exact ih

/-! ## What a request turns over -/

/-- The stacks in some holdings. -/
def stacksOf (holdings : List Holding) : List Allocation := holdings.flatMap Holding.stacks

theorem stacksOf_perm {holdings gone left : List Holding} (h : holdings.Perm (gone ++ left)) :
    (stacksOf holdings).Perm (stacksOf gone ++ stacksOf left) :=
  (h.flatMap_right Holding.stacks).trans (List.Perm.of_eq List.flatMap_append)

namespace Scheduler

section

variable {F S : Type} [FrameSource F] [ImageSource S] [LawfulImageSource S]

/-- Buried tasks give their stacks back, and nothing else changes hands. -/
theorem Buried.released {store store' : TaskStore} {mem mem' : Memory F}
    {ids : List TaskId} (buried : Buried store mem ids store' mem') (h : store.Linked) :
    ∃ gone : List Holding, store.holdings.Perm (gone ++ store'.holdings) ∧
      mem' = mem.releaseAll (stacksOf gone) := by
  induction buried with
  | nil => exact ⟨[], List.Perm.refl _, rfl⟩
  | @cons store store' mem mem' id task ids zombie get rest ih =>
    obtain ⟨gone, hperm, hreleased⟩ := ih (h.bury zombie)
    exact ⟨task.holding :: gone, (h.holdings_bury zombie get).trans (hperm.cons _), hreleased⟩

/-- An image is loaded into the frames that were taken for it. -/
theorem frame_loadImage_of_allocate {mem mem₁ : Memory F} (hpages : GrantsPages mem.frames)
    {images : S} {name : String} {image : PhysAddr}
    (h : mem.allocate (pageRoundUp (ImageSource.sizeOf images name)) = (some image, mem₁)) {n : Nat}
    (hout : n ∉ framesFrom image (pageRoundUp (ImageSource.sizeOf images name))) :
    (loadImage mem₁.ram images name image (ImageSource.sizeOf images name)).frame n =
      mem₁.ram.frame n := by
  obtain ⟨haligned, hend⟩ := hpages _ _ (congrArg Prod.fst (frames_of_allocate h))
  rw [pageRoundUp_pageRoundUp] at hend
  rw [framesFrom_pageRoundUp] at hout
  exact frame_loadImage mem₁.ram images name haligned hend hout

/-- Taking frames for an image and loading it. -/
theorem image_turnover {mem mem₁ : Memory F} (hpages : GrantsPages mem.frames) {images : S}
    {name : String} {image : PhysAddr}
    (h : mem.allocate (pageRoundUp (ImageSource.sizeOf images name)) = (some image, mem₁)) :
    Turnover mem 0 {⟨image, pageRoundUp (ImageSource.sizeOf images name)⟩} (mem₁.mapRam fun ram =>
      loadImage ram images name image (ImageSource.sizeOf images name)) :=
  .of_filled h _ fun _ hout => frame_loadImage_of_allocate hpages h hout

theorem launchedImages_of_none {answer : Answer} (h : answer.launched? = none) (store : TaskStore) :
    Machine.launchedImages answer store = [] := by
  rw [Machine.launchedImages, h]
  rfl

/-- The task that a launch has started holds the image that was loaded for it. -/
theorem launchedImages_of_build {store store' : TaskStore}
    (hlinked : store'.Linked) {mem mem' : Memory F} {id : TaskId} {image : PhysAddr}
    {imageSize : Nat} {task : Task}
    (build : Task.build mem id (LinearWindow.kernel.toVirt image) imageSize = (.ok task, mem'))
    (holdings : store'.holdings = store.holdings ++ [task.holding]) {target : LaunchTarget}
    (started : target.task = id) :
    Machine.launchedImages (.launched (.ok target)) store' = [⟨image, pageRoundUp imageSize⟩] := by
  obtain ⟨kernelBase, userBase, root, hholding⟩ := Task.holding_of_build build
  have hmem : task.holding ∈ store'.holdings := by
    rw [holdings]
    exact List.mem_append_right _ List.mem_cons_self
  obtain ⟨found, hfound, hsame⟩ := hlinked.get?_of_holding hmem
  rw [hholding] at hfound hsame
  rw [Machine.launchedImages, Answer.launched?, started, Option.bind_some, hfound,
    Option.map_some, hsame, Holding.image, LinearWindow.toPhys_toVirt]
  rfl

/-- A request that does not reap returns only what it took; one that reaps returns the
    stacks of those who are gone. -/
theorem Effect.turnover {s s' : Scheduler} {mem mem' : Memory F} {request : Request S}
    {answer : Answer} (effect : Effect s mem request answer s' mem') (hs : s.Seated)
    (hs' : s'.Seated) (hpages : GrantsPages mem.frames) :
    (∃ news : List Holding, s'.store.holdings = s.store.holdings ++ news ∧
      (∀ h ∈ news, h.Sized) ∧
      Turnover mem 0 ↑(Machine.launchedImages answer s'.store ++ stacksOf news) mem') ∨
    (request = .reap ∧ Machine.launchedImages answer s'.store = [] ∧
      ∃ gone : List Holding, s.store.holdings.Perm (gone ++ s'.store.holdings) ∧
        Traffic mem ((stacksOf gone).map .returned) mem') := by
  have sized {mem mem' : Memory F} {id : TaskId} {entry : VirtAddr} {imageSize : Nat}
      {task : Task}
      (h : Task.build mem id entry imageSize = (.ok task, mem')) :
      ∀ h ∈ [task.holding], h.Sized := by
    obtain ⟨kernelBase, userBase, root, hholding⟩ := Task.holding_of_build h
    rw [hholding]
    exact List.forall_mem_singleton.2 ⟨rfl, rfl⟩
  cases effect with
  | kept quiet holdings launched =>
    refine Or.inl ⟨[], by rw [holdings, List.append_nil], List.forall_mem_nil _, ?_⟩
    rw [launchedImages_of_none launched]
    exact .refl mem 0
  | created asked build holdings =>
    exact Or.inl ⟨_, holdings, sized build, Task.build_turnover build⟩
  | notCreated asked build =>
    exact Or.inl ⟨[], (List.append_nil _).symm, List.forall_mem_nil _, Task.build_turnover build⟩
  | @launched images name mode image task target s' mem₁ mem' size allocate build holdings started =>
    -- First the image, then the stacks.
    have hall := (image_turnover hpages allocate).trans ((Task.build_turnover build).on _)
    rw [add_comm] at hall
    refine Or.inl ⟨_, holdings, sized build, ?_⟩
    rw [launchedImages_of_build hs'.linked build holdings started]
    exact hall
  | @notLaunched images name mode image e mem₁ mem' size allocate build =>
    -- The construction has returned what it took, and the image goes back last.
    have hall := (image_turnover hpages allocate).trans ((Task.build_turnover build).keep _)
    exact Or.inl ⟨[], (List.append_nil _).symm, List.forall_mem_nil _,
      hall.trans (.release mem' ⟨image, pageRoundUp (ImageSource.sizeOf images name)⟩)⟩
  | noRoom allocate =>
    exact Or.inl ⟨[], (List.append_nil _).symm, List.forall_mem_nil _, .of_allocate_none allocate⟩
  | reaped buried =>
    obtain ⟨gone, hperm, rfl⟩ := buried.released hs.linked
    exact Or.inr ⟨rfl, rfl, gone, hperm, .releaseAll mem _⟩

end

end Scheduler

/-! ## What a machine turns over -/

namespace Machine

section

variable {F : Type} {m m' : Machine F}

/-- The allocations that ought to be on the books beside the tables: those of the caller,
    the images of launched tasks and the stacks of the live ones. -/
def accounts (m : Machine F) : Multiset Allocation :=
  ↑(m.supplied ++ (m.launched ++ stacksOf m.holdings))

theorem accounts_congr (supplied : m'.supplied = m.supplied)
    (launched : m'.launched = m.launched) (holdings : m'.holdings = m.holdings) :
    m'.accounts = m.accounts := by
  rw [accounts, accounts, supplied, launched, holdings]

theorem accounts_append (supplies images : List Allocation) (news : List Holding)
    (supplied : m'.supplied = m.supplied ++ supplies) (launched : m'.launched = m.launched ++ images)
    (holdings : m'.holdings = m.holdings ++ news) :
    m'.accounts = ↑(supplies ++ (images ++ stacksOf news)) + m.accounts := by
  rw [accounts, accounts, supplied, launched, holdings, stacksOf, List.flatMap_append, stacksOf,
    stacksOf]
  simp only [← Multiset.coe_add]
  abel

theorem accounts_of_perm {gone : List Holding} (supplied : m'.supplied = m.supplied)
    (launched : m'.launched = m.launched) (holdings : m.holdings.Perm (gone ++ m'.holdings)) :
    m.accounts = ↑(stacksOf gone) + m'.accounts := by
  rw [accounts, accounts, supplied, launched, ← Multiset.coe_add, ← Multiset.coe_add,
    Multiset.coe_eq_coe.2 (stacksOf_perm holdings)]
  simp only [← Multiset.coe_add]
  abel

end

section

variable {F P S : Type} [FrameSource F] [LimitedSource F]

/-- How a request to a machine can end. -/
inductive Outcome (m : Machine F) : MachineRequest P S → Machine F → Prop
  | limited (n : Nat) : Outcome m (.limit n)
      { m with memory := { m.memory with frames := LimitedSource.failAfter m.memory.frames n } }
  /-- Frames were taken for new tasks and images; no others came back. -/
  | grown {request : MachineRequest P S} {m' : Machine F} (news : List Holding)
      (more : List Allocation) (holdings : m'.holdings = m.holdings ++ news)
      (sized : ∀ h ∈ news, h.Sized) (accounts : m'.accounts = ↑more + m.accounts)
      (turnover : Turnover m.memory 0 ↑more m'.memory) : Outcome m request m'
  /-- The stacks of the tasks that are gone came back. -/
  | reaped {hw : P} {m' : Machine F} (gone : List Holding)
      (holdings : m.holdings.Perm (gone ++ m'.holdings))
      (accounts : m.accounts = ↑(stacksOf gone) + m'.accounts)
      (traffic : Traffic m.memory ((stacksOf gone).map .returned) m'.memory) :
      Outcome m (.ask .reap hw) m'

variable [Platform P] [ImageSource S]

theorem supply_outcome (trampoline : PhysAddr) (m : Machine F) (size : Nat) :
    m.Outcome (.supply size : MachineRequest P S)
      (m.perform trampoline (.supply size : MachineRequest P S)) := by
  rw [perform]
  split
  · next heq =>
    exact .grown [] [] (List.append_nil _).symm (List.forall_mem_nil _) (zero_add _).symm
      (.of_allocate_none heq)
  · next base memory heq =>
    refine .grown [] [⟨base, size⟩] (List.append_nil _).symm (List.forall_mem_nil _) ?_
      (.of_allocate_some heq)
    exact accounts_append [⟨base, size⟩] [] [] rfl (List.append_nil _).symm (List.append_nil _).symm

theorem handler_outcome (trampoline : PhysAddr) {m : Machine F} (h : m.scheduler.Seated) (id : TaskId)
    (signum : Int) (addr : Word) :
    m.Outcome (.handler id signum addr : MachineRequest P S)
        (m.perform trampoline (.handler id signum addr : MachineRequest P S)) ∧
      (m.perform trampoline (.handler id signum addr : MachineRequest P S)).scheduler.Seated := by
  rw [perform]
  split
  · exact ⟨.grown [] [] (List.append_nil _).symm (List.forall_mem_nil _) (zero_add _).symm
      (.refl _ 0), h⟩
  · next task hget =>
    obtain ⟨turnover, hholding, hqueue, hstate⟩ :=
      task.registerHandler_turnover m.memory signum addr trampoline
    have put := h.put hget hholding hqueue hstate
    refine ⟨.grown [] [] (put.holdings.trans (List.append_nil _).symm) (List.forall_mem_nil _)
      ?_ turnover, put.seated⟩
    exact Eq.trans (accounts_congr (m := m) rfl rfl put.holdings) (zero_add _).symm

variable [LawfulImageSource S]

theorem ask_outcome (trampoline : PhysAddr) {m : Machine F} (h : m.scheduler.Seated)
    (hpages : GrantsPages m.memory.frames) (request : Request S) (hw : P) :
    m.Outcome (.ask request hw) (m.perform trampoline (.ask request hw)) ∧
      (m.perform trampoline (.ask request hw)).scheduler.Seated := by
  obtain ⟨effect, hseated⟩ := h.effect m.memory hw request
  refine ⟨?_, hseated⟩
  rcases effect.turnover h hseated hpages with
    ⟨news, hholdings, hsized, turnover⟩ | ⟨rfl, hlaunched, gone, hperm, traffic⟩
  · refine .grown news _ hholdings hsized ?_ turnover
    exact accounts_append [] _ _ (List.append_nil _).symm rfl hholdings
  · refine .reaped gone hperm (accounts_of_perm rfl ?_ hperm) traffic
    exact (congrArg (m.launched ++ ·) hlaunched).trans (List.append_nil _)

theorem perform_outcome (trampoline : PhysAddr) {m : Machine F} (h : m.scheduler.Seated)
    (hpages : GrantsPages m.memory.frames) (request : MachineRequest P S) :
    m.Outcome request (m.perform trampoline request) ∧
      (m.perform trampoline request).scheduler.Seated := by
  cases request with
  | limit n => exact ⟨.limited n, h⟩
  | supply size =>
    refine ⟨supply_outcome trampoline m size, ?_⟩
    rw [perform]
    split <;> exact h
  | handler id signum addr => exact handler_outcome trampoline h id signum addr
  | ask request hw => exact ask_outcome trampoline h hpages request hw

end

end Machine

end TaskKernel
