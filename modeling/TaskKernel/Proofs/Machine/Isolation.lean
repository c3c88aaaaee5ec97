/-
  TaskKernel.Proofs.Machine.Isolation

  Tasks kept apart. Whatever is asked of a machine, the frames that a task may write in user
  mode are its image and its user stack; nobody else has them, neither as another task's
  memory nor as a translation table or a kernel stack.
-/
import TaskKernel.Proofs.Machine.Audit
import TaskKernel.Proofs.Machine.Estate

namespace TaskKernel

/-! ## Ranges -/

theorem pageRoundUp_le {size size' : Nat} (h : size ≤ pageRoundUp size') :
    pageRoundUp size ≤ pageRoundUp size' := by
  simp only [pageRoundUp, pageSize] at h ⊢
  omega

theorem framesFrom_subset {size size' : Nat} (h : size ≤ pageRoundUp size') (pa : PhysAddr) :
    framesFrom pa size ⊆ framesFrom pa size' := by
  have hcount : pageCount size ≤ pageCount size' := Nat.div_le_div_right (pageRoundUp_le h)
  exact Set.Ico_subset_Ico_right (Nat.add_le_add_left hcount _)

/-- A placed range has room for an image that is no larger. -/
theorem Allocation.Placed.image {a : Allocation} (placed : a.Placed) {imageSize : Nat}
    (hsize : imageSize ≤ pageRoundUp a.size) : Allocation.Placed
      ⟨LinearWindow.kernel.toPhys (LinearWindow.kernel.toVirt a.base), pageRoundUp imageSize⟩ := by
  rw [LinearWindow.toPhys_toVirt]
  refine ⟨placed.aligned, (Nat.add_le_add_left ?_ _).trans placed.below⟩
  rw [pageRoundUp_pageRoundUp]
  exact pageRoundUp_le hsize

namespace FramePool

/-- The pool never hands out the frame of `pa`: it is in use for good, or not in the pool. -/
def Withholds (pool : FramePool) (pa : PhysAddr) : Prop :=
  ∀ i, pool.used[i]? = some false → pa.frameNumber ≠ frameOfPage i

variable {pool start : FramePool} {books : Multiset Allocation} {a : Allocation}

theorem withholds_of_lt {pa : PhysAddr} (h : pa.toNat < poolBase.toNat) : pool.Withholds pa := by
  intro i _
  have hbase : poolBase.toNat = 256 * 4096 := by decide
  rw [Address.frameNumber, frameOfPage, hbase, pageSize]
  omega

/-- A frame that is withheld and in use has been in use from the start. -/
theorem mem_heldFrames_of_withholds (hlength : pool.used.length = start.used.length)
    {pa : PhysAddr} (hpa : start.Withholds pa) (hmem : pa.frameNumber ∈ pool.heldFrames) :
    pa.frameNumber ∈ start.heldFrames := by
  obtain ⟨i, hused, hframe⟩ := hmem
  obtain ⟨hi, -⟩ := List.getElem?_eq_some_iff.1 hused
  rw [hlength] at hi
  have hget := List.getElem?_eq_getElem hi
  cases hpage : start.used[i] with
  | true =>
    rw [hpage] at hget
    exact ⟨i, hget, hframe⟩
  | false =>
    rw [hpage] at hget
    exact absurd hframe (hpa i hget)

/-- A frame that is withheld is in no allocation. -/
theorem Booked.notMem_of_withholds (h : Booked start.heldFrames pool books)
    (hlength : pool.used.length = start.used.length) {pa : PhysAddr} (hpa : start.Withholds pa)
    (ha : a ∈ books) : pa.frameNumber ∉ a.frames := by
  intro hmem
  have hstart := mem_heldFrames_of_withholds hlength hpa (h.frames_subset ha hmem)
  exact Set.disjoint_left.1 (h.apart a ha) hstart hmem

end FramePool

namespace Machine

/-! ## Isolated machines -/

section

variable {P S : Type}

/-- New tasks are built for images that the caller has taken frames for and that no live
    task was built for. -/
def GivesFreshImages (m : Machine FramePool) : MachineRequest P S → Prop
  | .ask request _ => ∀ entry imageSize, request.image? = some (entry, imageSize) →
    (∃ a ∈ m.supplied, entry = LinearWindow.kernel.toVirt a.base ∧ imageSize ≤ pageRoundUp a.size) ∧
      ∀ h ∈ m.holdings, h.entry ≠ entry
  | _ => True

end

/-- The allocation that the image of a task lies in. -/
def KeepsImage (m : Machine FramePool) (h : Holding) (a : Allocation) : Prop :=
  a ∈ m.supplied ++ m.launched ∧ a.base = h.image.base ∧ h.image.frames ⊆ a.frames

/-- The trees of all tasks are in order and stand apart from everything on the books, and
    each task has an image of its own. -/
structure Isolated (trampoline : PhysAddr) (reserved : Set Nat) (m : Machine FramePool) : Prop where
  estate : Estate trampoline (reserved ∪ framesOf m.accounts) m.holdings m.memory
  images : ∀ h ∈ m.holdings, ∃ a, m.KeepsImage h a
  entries : (m.holdings.map Holding.entry).Nodup

namespace Isolated

variable {trampoline : PhysAddr} {reserved others : Set Nat} {m m' : Machine FramePool}

/-- More images and tasks join those that are there. -/
theorem grow (h : Isolated trampoline reserved m) (supplies images : List Allocation)
    (news : List Holding) (supplied : m'.supplied = m.supplied ++ supplies)
    (launched : m'.launched = m.launched ++ images) (holdings : m'.holdings = m.holdings ++ news)
    (estate : Estate trampoline others (m.holdings ++ news) m'.memory)
    (hothers : framesOf ↑supplies ∪ framesOf ↑images ∪ framesOf ↑(stacksOf news) ∪
      (reserved ∪ framesOf m.accounts) ⊆ others)
    (newImages : ∀ h ∈ news, ∃ a, m'.KeepsImage h a)
    (newEntries : (news.map Holding.entry).Nodup)
    (fresh : ∀ h ∈ news, ∀ h' ∈ m.holdings, h'.entry ≠ h.entry) :
    Isolated trampoline reserved m' where
  estate := by
    have haccounts := accounts_append supplies images news supplied launched holdings
    rw [← Multiset.coe_add, ← Multiset.coe_add] at haccounts
    rw [holdings]
    refine estate.mono (Set.Subset.trans ?_ hothers)
    rw [haccounts, framesOf_add, framesOf_add, framesOf_add]
    intro n hn
    simp only [Set.mem_union] at hn ⊢
    tauto
  images := by
    rw [holdings]
    intro holding hmem
    rcases List.mem_append.1 hmem with hold | hnew
    · obtain ⟨a, ha, himage⟩ := h.images holding hold
      refine ⟨a, ?_, himage⟩
      rw [supplied, launched]
      rcases List.mem_append.1 ha with ha | ha
      · exact List.mem_append_left _ (List.mem_append_left _ ha)
      · exact List.mem_append_right _ (List.mem_append_left _ ha)
    · exact newImages holding hnew
  entries := by
    rw [holdings, List.map_append, List.nodup_append]
    refine ⟨h.entries, newEntries, ?_⟩
    rintro entry hentry entry' hentry' rfl
    obtain ⟨holding, hmem, rfl⟩ := List.mem_map.1 hentry'
    obtain ⟨holding', hmem', heq⟩ := List.mem_map.1 hentry
    exact fresh holding hmem holding' hmem' heq

/-- Nothing joins what is there. -/
theorem keep (h : Isolated trampoline reserved m) (supplied : m'.supplied = m.supplied)
    (launched : m'.launched = m.launched) (holdings : m'.holdings = m.holdings)
    (estate : Estate trampoline (reserved ∪ framesOf m.accounts) m.holdings m'.memory) :
    Isolated trampoline reserved m' where
  estate := by
    rw [accounts_congr supplied launched holdings, holdings]
    exact estate
  images := by
    rw [holdings]
    intro holding hmem
    obtain ⟨a, ha, himage⟩ := h.images holding hmem
    exact ⟨a, by rwa [supplied, launched], himage⟩
  entries := by
    rw [holdings]
    exact h.entries

/-- Which spaces were made for tasks of the past does not matter. -/
theorem withRoots (h : Isolated trampoline reserved m) (roots : List PhysAddr) :
    Isolated trampoline reserved { m with roots } :=
  ⟨h.estate, h.images, h.entries⟩

/-- A frame range that the caller takes. -/
theorem supply (h : Isolated trampoline reserved m) {size : Nat} {base : PhysAddr}
    {mem' : Memory FramePool} (heq : m.memory.allocate size = (some base, mem')) :
    Isolated trampoline reserved
      { m with memory := mem', supplied := m.supplied ++ [⟨base, size⟩] } := by
  obtain ⟨hestate, -, -⟩ := h.estate.reserve heq
  refine h.grow [⟨base, size⟩] [] [] rfl (List.append_nil _).symm (List.append_nil _).symm
    (by rwa [List.append_nil]) ?_ (List.forall_mem_nil _) List.nodup_nil (List.forall_mem_nil _)
  simp only [stacksOf, List.flatMap_nil, Multiset.coe_nil, framesOf_zero, Set.union_empty,
    Multiset.coe_singleton, framesOf_singleton]
  exact (Set.union_comm _ _).subset

/-- A task is built for an image of its own. -/
theorem created (h : Isolated trampoline reserved m) {a : Allocation} (ha : a ∈ m.supplied)
    (placed : a.Placed) {imageSize : Nat} (hsize : imageSize ≤ pageRoundUp a.size) {id : TaskId}
    {task : Task} {mem' : Memory FramePool}
    (build :
      Task.build m.memory id (LinearWindow.kernel.toVirt a.base) imageSize = (.ok task, mem'))
    (fresh : ∀ h ∈ m.holdings, h.entry ≠ LinearWindow.kernel.toVirt a.base) {s' : Scheduler}
    (holdings : s'.store.holdings = m.holdings ++ [task.holding]) :
    Isolated trampoline reserved { m with scheduler := s', memory := mem' } := by
  obtain ⟨kernelBase, userBase, root, hholding⟩ := Task.holding_of_build build
  have hbase : task.holding.image.base = a.base := by
    rw [hholding]
    exact LinearWindow.toPhys_toVirt _ _
  refine h.grow [] [] [task.holding] (List.append_nil _).symm (List.append_nil _).symm holdings
    (h.estate.build (placed.image hsize) build) ?_ ?_ (List.nodup_singleton _) ?_
  · simp only [stacksOf, List.flatMap_singleton, Multiset.coe_nil, framesOf_zero, Set.empty_union]
    exact (Set.union_comm _ _).subset
  · rw [List.forall_mem_singleton]
    refine ⟨a, List.mem_append_left _ ha, hbase.symm, ?_⟩
    rw [Allocation.frames, hbase, hholding]
    show framesFrom a.base (pageRoundUp imageSize) ⊆ framesFrom a.base a.size
    rw [framesFrom_pageRoundUp]
    exact framesFrom_subset hsize a.base
  · rw [List.forall_mem_singleton, hholding]
    exact fresh

/-- A task cannot be built for an image of the caller. -/
theorem notCreated (h : Isolated trampoline reserved m) {a : Allocation} (placed : a.Placed)
    {imageSize : Nat} (hsize : imageSize ≤ pageRoundUp a.size) {id : TaskId} {e : TaskError}
    {mem' : Memory FramePool}
    (build :
      Task.build m.memory id (LinearWindow.kernel.toVirt a.base) imageSize = (.error e, mem')) :
    Isolated trampoline reserved { m with memory := mem' } :=
  h.keep rfl rfl rfl (h.estate.build_failed (placed.image hsize) build)

section Launch

variable {S : Type} [ImageSource S] [LawfulImageSource S] {images : S} {name : String}
  {image : PhysAddr} {mem₁ mem' : Memory FramePool}

/-- Frames are taken for an image and the image is loaded there. -/
theorem loaded (h : Isolated trampoline reserved m)
    (allocate : m.memory.allocate (pageRoundUp (ImageSource.sizeOf images name)) =
      (some image, mem₁)) :
    Estate trampoline (reserved ∪ framesOf m.accounts ∪
        framesFrom image (pageRoundUp (ImageSource.sizeOf images name))) m.holdings
      (mem₁.mapRam fun ram => loadImage ram images name image (ImageSource.sizeOf images name)) ∧
    Allocation.Placed ⟨image, pageRoundUp (ImageSource.sizeOf images name)⟩ ∧
    Disjoint (reserved ∪ framesOf m.accounts)
      (framesFrom image (pageRoundUp (ImageSource.sizeOf images name))) := by
  obtain ⟨hestate, placed, hapart⟩ := h.estate.reserve allocate
  have hbelow := placed.below
  rw [pageRoundUp_pageRoundUp] at hbelow
  refine ⟨hestate.overwrite _ fun n hn => ?_, placed, hapart⟩
  refine frame_loadImage mem₁.ram images name placed.aligned (by dsimp only at hbelow; omega) ?_
  rw [← framesFrom_pageRoundUp]
  exact fun hin => hn (Or.inr hin)

/-- A task is launched with an image loaded for it. -/
theorem launched (h : Isolated trampoline reserved m)
    (allocate : m.memory.allocate (pageRoundUp (ImageSource.sizeOf images name)) =
      (some image, mem₁)) {id : TaskId} {task : Task}
    (build : Task.build
      (mem₁.mapRam fun ram => loadImage ram images name image (ImageSource.sizeOf images name))
      id (LinearWindow.kernel.toVirt image) (ImageSource.sizeOf images name) = (.ok task, mem'))
    {s' : Scheduler} (holdings : s'.store.holdings = m.holdings ++ [task.holding]) :
    Isolated trampoline reserved ⟨s', mem', m.supplied,
      m.launched ++ [⟨image, pageRoundUp (ImageSource.sizeOf images name)⟩], m.roots⟩ := by
  obtain ⟨hestate, placed, hapart⟩ := h.loaded allocate
  obtain ⟨kernelBase, userBase, root, hholding⟩ := Task.holding_of_build build
  have himage : task.holding.image = ⟨image, pageRoundUp (ImageSource.sizeOf images name)⟩ := by
    rw [hholding, Holding.image, LinearWindow.toPhys_toVirt]
  refine h.grow [] _ [task.holding] (List.append_nil _).symm rfl holdings
    (hestate.build (placed.image (Nat.le_trans (le_pageRoundUp _) (le_pageRoundUp _))) build)
    ?_ ?_ (List.nodup_singleton _) ?_
  · simp only [stacksOf, List.flatMap_singleton, Multiset.coe_nil, framesOf_zero, Set.empty_union,
      Multiset.coe_singleton, framesOf_singleton]
    intro n hn
    simp only [Set.mem_union, Allocation.frames] at hn ⊢
    tauto
  · rw [List.forall_mem_singleton]
    refine ⟨_, List.mem_append_right _ (List.mem_append_right _ List.mem_cons_self), ?_, ?_⟩
    · rw [himage]
    · rw [himage]
  -- An earlier task with this entry would have its image in frames that were free just now.
  · rw [List.forall_mem_singleton, hholding]
    intro other hother heq
    obtain ⟨a, ha, hbase, -⟩ := h.images other hother
    have hsame : a.base = image := by
      rw [hbase, Holding.image, heq, LinearWindow.toPhys_toVirt]
    have hframe : image.frameNumber ∈ reserved ∪ framesOf m.accounts :=
      Or.inr ⟨a, mem_accounts_of_images ha, hsame ▸ a.frameNumber_mem⟩
    exact Set.disjoint_left.1 hapart hframe (Allocation.frameNumber_mem ⟨image, _⟩)

/-- A launch gives the image back if its task cannot be built. -/
theorem notLaunched (h : Isolated trampoline reserved m)
    (allocate : m.memory.allocate (pageRoundUp (ImageSource.sizeOf images name)) =
      (some image, mem₁)) {id : TaskId} {e : TaskError}
    (build : Task.build
      (mem₁.mapRam fun ram => loadImage ram images name image (ImageSource.sizeOf images name))
      id (LinearWindow.kernel.toVirt image) (ImageSource.sizeOf images name) = (.error e, mem')) :
    Isolated trampoline reserved { m with
      memory := mem'.release image (pageRoundUp (ImageSource.sizeOf images name)) } := by
  obtain ⟨hestate, placed, hapart⟩ := h.loaded allocate
  have hfailed := hestate.build_failed
    (placed.image (Nat.le_trans (le_pageRoundUp _) (le_pageRoundUp _))) build
  exact h.keep rfl rfl rfl
    (hfailed.giveBack placed Set.subset_union_right Set.subset_union_left hapart)

end Launch

/-- The stacks of the tasks that are gone go back. -/
theorem reaped (h : Isolated trampoline reserved m)
    {tables : Multiset Allocation}
    (booked : FramePool.Booked reserved m.memory.frames (m.accounts + tables))
    {gone : List Holding} {s' : Scheduler}
    (hperm : m.holdings.Perm (gone ++ s'.store.holdings)) :
    Isolated trampoline reserved
      { m with scheduler := s', memory := m.memory.releaseAll (stacksOf gone) } := by
  have haccounts : m.accounts = ↑(stacksOf gone) +
      accounts { m with scheduler := s', memory := m.memory.releaseAll (stacksOf gone) } :=
    accounts_of_perm rfl rfl hperm
  have hmem {a : Allocation} (ha : a ∈ stacksOf gone) : a.frames ⊆ framesOf m.accounts := by
    rw [haccounts]
    exact frames_subset_framesOf (Multiset.mem_add.2 (Or.inl ha))
  rw [haccounts, add_assoc] at booked
  obtain ⟨placed, hpairwise, hapart⟩ := booked.goingBack h.estate.carries.valid.1
  rw [framesOf_add] at hapart
  refine ⟨(h.estate.forget hperm).releaseAll placed
    (fun a ha => (hmem ha).trans Set.subset_union_right) hpairwise ?_ (fun a ha =>
      (hapart a ha).mono_left (Set.union_subset_union_right _ Set.subset_union_left)), ?_, ?_⟩
  · rw [haccounts, framesOf_add]
    exact Set.union_subset_union_right _ Set.subset_union_right
  · exact fun holding hholding =>
      h.images holding (hperm.mem_iff.2 (List.mem_append_right gone hholding))
  · have hentries := (hperm.map Holding.entry).nodup_iff.1 h.entries
    rw [List.map_append] at hentries
    exact (List.nodup_append.1 hentries).2.1

/-! ## Every request -/

section

variable {P S : Type} [Platform P] [ImageSource S]

theorem handler (h : Isolated trampoline reserved m) (haligned : trampoline.pageOffset = 0)
    (hbelow : trampoline.toNat < 2 ^ 48) (seated : m.scheduler.Seated) (id : TaskId) (signum : Int)
    (addr : Word) : Isolated trampoline reserved
      (m.perform trampoline (.handler id signum addr : MachineRequest P S)) := by
  rw [perform]
  split
  · exact h
  · next task hget =>
    obtain ⟨-, hholding, hqueue, hstate⟩ :=
      task.registerHandler_turnover m.memory signum addr trampoline
    have hmem : task.holding ∈ m.holdings :=
      List.mem_map.2 ⟨task, TaskStore.mem_of_get? hget, rfl⟩
    exact h.keep rfl rfl (seated.put hget hholding hqueue hstate).holdings
      (h.estate.registerHandler haligned hbelow hmem signum addr)

variable [LawfulImageSource S]

theorem ask (h : Isolated trampoline reserved m) (seated : m.scheduler.Seated)
    {tables : Multiset Allocation}
    (booked : FramePool.Booked reserved m.memory.frames (m.accounts + tables))
    (request : Request S) (hw : P)
    (admitted : m.GivesFreshImages (.ask request hw : MachineRequest P S)) :
    Isolated trampoline reserved (m.perform trampoline (.ask request hw)) := by
  have supplied {a : Allocation} (ha : a ∈ m.supplied) : a.Placed := by
    refine booked.placed_allocation h.estate.carries.valid.1 (Multiset.mem_add.2 (Or.inl ?_))
    exact List.mem_append_left _ ha
  obtain ⟨effect, hseated⟩ := seated.effect m.memory hw request
  -- From here on only the way the request ended matters.
  rw [perform_ask]
  generalize m.roots ++ (request.rootMade? m.memory).toList = roots
  generalize m.scheduler.answer m.memory hw request = ended at effect hseated ⊢
  obtain ⟨answer, s', mem', hw'⟩ := ended
  dsimp only at effect hseated ⊢
  cases effect with
  | kept quiet holdings launched =>
    rw [Scheduler.launchedImages_of_none launched, List.append_nil]
    exact h.keep rfl rfl holdings h.estate
  | created asked build holdings =>
    obtain ⟨⟨a, ha, rfl, hsize⟩, fresh⟩ := admitted _ _ asked
    rw [Scheduler.launchedImages_of_none rfl, List.append_nil]
    exact (h.created ha (supplied ha) hsize build fresh holdings).withRoots roots
  | notCreated asked build =>
    obtain ⟨⟨a, ha, rfl, hsize⟩, -⟩ := admitted _ _ asked
    rw [Scheduler.launchedImages_of_none rfl, List.append_nil]
    exact (h.notCreated (supplied ha) hsize build).withRoots roots
  | launched size allocate build holdings started =>
    rw [Scheduler.launchedImages_of_build hseated.linked build holdings started]
    exact (h.launched allocate build holdings).withRoots roots
  | notLaunched size allocate build =>
    rw [Scheduler.launchedImages_of_none rfl, List.append_nil]
    exact (h.notLaunched allocate build).withRoots roots
  | noRoom allocate =>
    rw [Scheduler.launchedImages_of_none rfl, List.append_nil]
    exact h.keep rfl rfl rfl (h.estate.refuse allocate)
  | reaped buried =>
    obtain ⟨gone, hperm, rfl⟩ := buried.released seated.linked
    rw [Scheduler.launchedImages_of_none rfl, List.append_nil]
    exact (h.reaped booked hperm).withRoots roots

/-- Whatever is asked, the tasks stay apart, as long as new ones get fresh images. -/
theorem perform (h : Isolated trampoline reserved m) (haligned : trampoline.pageOffset = 0)
    (hbelow : trampoline.toNat < 2 ^ 48) (seated : m.scheduler.Seated)
    {tables : Multiset Allocation}
    (booked : FramePool.Booked reserved m.memory.frames (m.accounts + tables))
    (request : MachineRequest P S) (admitted : m.GivesFreshImages request) :
    Isolated trampoline reserved (m.perform trampoline request) := by
  cases request with
  | limit n =>
    have carries := h.estate.carries
    exact h.keep rfl rfl rfl (h.estate.keep ⟨carries.valid, carries.forest⟩ (.of_eq rfl))
  | supply size =>
    rw [Machine.perform]
    split
    · next heq => exact h.keep rfl rfl rfl (h.estate.refuse heq)
    · next heq => exact h.supply heq
  | handler id signum addr => exact h.handler haligned hbelow seated id signum addr
  | ask request hw => exact h.ask seated booked request hw admitted

end

end Isolated

/-! ## Runs -/

theorem isolated_fresh (trampoline : PhysAddr) {start : Memory FramePool}
    (hfits : start.frames.Fits) : Isolated trampoline start.frames.heldFrames (fresh start) where
  estate := by
    have hroots : rootsOf [] = ∅ := by
      ext root
      simp [rootsOf]
    refine ⟨⟨⟨hfits, ?_⟩, ?_⟩, List.nodup_nil, List.forall_mem_nil _⟩
    · rw [show accounts (fresh start) = 0 from rfl, framesOf_zero, Set.union_empty]
      exact Set.Subset.refl _
    · rw [show (fresh start).holdings = [] from rfl, hroots]
      exact forest_empty _ _
  images := List.forall_mem_nil _
  entries := List.nodup_nil

/-- Every run that gives fresh images to new tasks keeps the tasks apart. -/
theorem Run.isolated {P S : Type} [Platform P] [ImageSource S] [LawfulImageSource S]
    {trampoline : PhysAddr} {start : Memory FramePool} {m : Machine FramePool}
    (run : Run trampoline (GivesFreshImages (P := P) (S := S)) (fresh start) m)
    (haligned : trampoline.pageOffset = 0) (hbelow : trampoline.toNat < 2 ^ 48)
    (hfits : start.frames.Fits) :
    ∃ log, Audited start log m ∧ Isolated trampoline start.frames.heldFrames m := by
  induction run with
  | start => exact ⟨[], audited_fresh start, isolated_fresh trampoline hfits⟩
  | step run request admitted ih =>
    obtain ⟨log, audited, isolated⟩ := ih
    have booked := audited.booked hfits.addressable
    obtain ⟨outcome, hseated⟩ :=
      perform_outcome trampoline audited.seated booked.addressable.grantsPages request
    obtain ⟨events, hnext⟩ := audited.outcome outcome hseated
    exact ⟨_, hnext, isolated.perform haligned hbelow audited.seated booked request admitted⟩

/-! ## A machine at work -/

/-- A machine with an idle task, which handles a signal: a pool of 48 pages, the first of
    them the image of the task. -/
def idleMachine : Machine FramePool :=
  let requests : List (MachineRequest Recorder ImageTable) :=
    [.supply pageSize, .ask (.init (LinearWindow.kernel.toVirt ⟨poolBase⟩)) Recorder.new,
      .handler ⟨0⟩ 2 0x1000]
  requests.foldl (perform ⟨0x9000⟩) (fresh ⟨.zero, .ofPages 48⟩)

theorem run_idleMachine : Run ⟨0x9000⟩ (GivesFreshImages (P := Recorder) (S := ImageTable))
    (fresh ⟨.zero, .ofPages 48⟩) idleMachine := by
  have supplied := (Run.start : Run ⟨0x9000⟩
    (GivesFreshImages (P := Recorder) (S := ImageTable)) (fresh ⟨.zero, .ofPages 48⟩) _).step
    (.supply pageSize) trivial
  have created := supplied.step
    (.ask (.init (LinearWindow.kernel.toVirt ⟨poolBase⟩)) Recorder.new) (by
      rintro _ _ ⟨⟩
      exact ⟨⟨⟨⟨poolBase⟩, pageSize⟩, by decide +kernel, rfl, by decide⟩, by decide +kernel⟩)
  have handled := created.step (.handler ⟨0⟩ 2 0x1000) trivial
  rw [idleMachine, List.foldl_cons, List.foldl_cons, List.foldl_cons, List.foldl_nil]
  exact handled

end Machine

end TaskKernel
