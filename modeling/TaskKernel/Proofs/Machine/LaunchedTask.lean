/-
  TaskKernel.Proofs.Machine.LaunchedTask

  What a launch that succeeds has started. The new task has taken over from the one that ran,
  its table is installed, and what it sees through that table is the member of the archive that
  was asked for, its own stacks and nothing else.
-/
import TaskKernel.Archive.Writer
import TaskKernel.Proofs.Machine.Accounting
import TaskKernel.Proofs.Scheduler.Launches
import TaskKernel.Proofs.Scheduler.Placement
import TaskKernel.Proofs.Scheduler.Rooted
import TaskKernel.Proofs.Task.LaidOut

namespace TaskKernel

/-! ## What a task sees -/

/-- Through its tree the task sees the bytes of its program from the image base on, zeros up to
    the end of the last page, its stacks in their windows, and nothing else; only the kernel
    stack is hidden from user mode. -/
structure Task.Shows (task : Task) (ram : Ram) (program : List Byte) : Prop where
  imageSize : task.imageSize = program.length
  sized : task.holding.Sized
  image : ∀ i < pageRoundUp program.length, ∃ pa,
    task.space.translate ram (Layout.imageBase.plus i) = some pa ∧ ram.byte pa = program[i]?.getD 0
  gap : ∀ va : VirtAddr, pageRoundUp program.length ≤ va.toNat →
    va.toNat < Layout.userStackWindow.toNat → task.space.leaf ram va = none
  userStack : ∀ i < Layout.userStackSize,
    task.space.translate ram (Layout.userStackWindow.plus i) = some (task.userStack.base.plus i)
  kernelStack : ∀ i < Layout.kernelStackSize,
    task.space.translate ram (Layout.kernelStackWindow.plus i) = some (task.kernelStack.base.plus i)
  hidden : ∀ va : VirtAddr, va.toNat < 2 ^ 48 → ∀ d, task.space.leaf ram va = some d →
    (d.flags.contains .user = false ↔ va.frameNumber = Layout.kernelStackWindow.frameNumber)

namespace Holding

variable {h : Holding} {ram : Ram}

/-- Of what is mapped, the kernel stack alone is hidden from user mode. -/
theorem LaidOut.hidden_iff (laidOut : h.LaidOut ram) (spread : h.Spread) {va : VirtAddr}
    (hva : va.toNat < 2 ^ 48) {d : Descriptor} (hd : pageLeaf ram h.root va = some d) :
    d.flags.contains .user = false ↔ va.frameNumber = Layout.kernelStackWindow.frameNumber := by
  have hstacks := Layout.userStackWindow_below_kernelStackWindow
  have hwindow : Layout.kernelStackWindow.toNat = Layout.kernelStackWindow.frameNumber * 4096 := by
    decide
  have hsize : Layout.kernelStackSize = 4096 := rfl
  have hframe : va.frameNumber = va.toNat / 4096 := rfl
  -- The leaf is that of the window which the page is in, with the rights of that window.
  by_cases himage : h.imageCall.Touches va
  · cases (laidOut.image va hva himage).symm.trans hd
    have hbelow := spread.below
    rw [spread.touches_image] at himage
    refine iff_of_false ?_ (by omega)
    rw [spread.placed.imageCall_aligned.flags_descriptor]
    show ¬ (Flags.userNormal ||| .page ||| .accessed).contains .user = false
    decide
  · by_cases huser : h.userStackCall.Touches va
    · cases (laidOut.userStack va hva huser).symm.trans hd
      rw [spread.touches_userStack] at huser
      refine iff_of_false ?_ (by omega)
      rw [spread.placed.userStackCall_aligned.flags_descriptor]
      show ¬ (Flags.userNormal ||| .page ||| .accessed).contains .user = false
      decide
    · by_cases hkernel : h.kernelStackCall.Touches va
      · cases (laidOut.kernelStack va hva hkernel).symm.trans hd
        rw [spread.touches_kernelStack] at hkernel
        refine iff_of_true ?_ (by omega)
        rw [spread.placed.kernelStackCall_aligned.flags_descriptor]
        show (Flags.kernelData ||| .page ||| .accessed).contains .user = false
        decide
      · cases (laidOut.elsewhere va hva himage huser hkernel).symm.trans hd

end Holding

/-- A task that is laid out shows what stands in the frames of its image. -/
theorem Task.shows_of_laidOut (task : Task) {ram : Ram} {program : List Byte}
    (spread : task.holding.Spread) (laidOut : task.holding.LaidOut ram)
    (hsize : task.imageSize = program.length)
    (hbytes : ∀ i < pageRoundUp program.length,
      ram.byte ((LinearWindow.kernel.toPhys task.entry).plus i) = program[i]?.getD 0) :
    task.Shows ram program where
  imageSize := hsize
  sized := spread.placed.sized
  image i hi := by
    have hi' : i < pageRoundUp task.holding.imageCall.size := by
      rwa [show task.holding.imageCall.size = program.length from hsize]
    exact ⟨_, laidOut.image.translate spread.placed.imageCall_aligned spread.some_image hi',
      hbytes i hi⟩
  gap va hlow hhigh := by
    have hwindows := Layout.userStackWindow_below_kernelStackWindow
    have hbound : Layout.userStackWindow.toNat < 2 ^ 48 := by decide
    have hholding : task.holding.imageSize = program.length := hsize
    rw [AddressSpace.leaf_eq_leafAt]
    refine laidOut.elsewhere va (by omega) ?_ ?_ ?_
    · rw [spread.touches_image, hholding]
      omega
    · rw [spread.touches_userStack]
      omega
    · rw [spread.touches_kernelStack]
      omega
  userStack i hi := by
    rw [← pageRoundUp_userStackSize] at hi
    exact laidOut.userStack.translate spread.placed.userStackCall_aligned
      (show Layout.userStackSize ≠ 0 by decide) hi
  kernelStack i hi := by
    rw [← pageRoundUp_kernelStackSize] at hi
    exact laidOut.kernelStack.translate spread.placed.kernelStackCall_aligned
      (show Layout.kernelStackSize ≠ 0 by decide) hi
  hidden va hva d hd := by
    rw [AddressSpace.leaf_eq_leafAt] at hd
    exact laidOut.hidden_iff spread hva hd

/-! ## Loading and building -/

/-- The bytes of a range lie in its frames. -/
theorem frameNumber_plus_mem {pa : PhysAddr} (haligned : pa.pageOffset = 0) {size i : Nat}
    (hi : i < pageRoundUp size) (hfit : pa.toNat + pageRoundUp size ≤ 2 ^ 48) :
    (pa.plus i).frameNumber ∈ framesFrom pa size := by
  have hcount := pageCount_mul size
  rw [Address.pageOffset_eq_mod] at haligned
  rw [framesFrom, Set.mem_Ico, Address.frameNumber, Address.frameNumber,
    Address.toNat_plus_of_lt (by omega)]
  rw [pageSize] at hcount
  omega

/-- Pools start well above address zero, so whatever they hand out is too small to reach from
    the image base to the stacks. -/
theorem FramePool.room_below_stacks {pool : FramePool} (hfits : pool.Fits) {size : Nat}
    {pa : PhysAddr} (h : (pool.allocate size).1 = some pa) :
    pageRoundUp size ≤ Layout.userStackWindow.toNat := by
  obtain ⟨start, hstart, rfl, -⟩ := allocate_some h
  obtain ⟨hlength, -⟩ := firstFreeRun_free hstart
  have hend := (place_of_allocate hfits.addressable h).2
  have hbase : poolBase.toNat = 2 ^ 20 := by decide
  have hwindow : Layout.userStackWindow.toNat = 2 ^ 48 - 20480 := by decide
  rw [toNat_pageAddr (hfits.addressable.lt (by omega))] at hend
  unfold Fits at hfits
  omega

/-- An image that is not empty is that of a member. -/
theorem Archive.exists_of_sizeOf {a : Archive} {name : String}
    (h : ImageSource.sizeOf a name ≠ 0) :
    ∃ m, a.find? name = some m ∧ ImageSource.sizeOf a name = m.data.length := by
  have hsize : ImageSource.sizeOf a name = (a.find? name).elim 0 fun m => m.data.length := rfl
  cases hfind : a.find? name with
  | none =>
    rw [hsize, hfind] at h
    exact absurd rfl h
  | some m => exact ⟨m, rfl, by rw [hsize, hfind]; rfl⟩

/-- A task that was built around a member of an archive shows that member. -/
theorem Task.shows_of_build {mem mem₁ mem' : Memory FramePool} (hfits : mem.frames.Fits)
    {a : Archive} {name : String} {m : Archive.Member} (hfind : a.find? name = some m)
    (hsize : m.data.length ≠ 0) {image : PhysAddr} {id : TaskId} {task : Task}
    (allocate : mem.allocate (pageRoundUp m.data.length) = (some image, mem₁))
    (build : Task.build (mem₁.mapRam fun ram => loadImage ram a name image m.data.length) id
      (LinearWindow.kernel.toVirt image) m.data.length = (.ok task, mem')) :
    task.Shows mem'.ram m.data := by
  have hsizeOf : ImageSource.sizeOf a name = m.data.length := by
    show ((a.find? name).elim 0 fun m => m.data.length) = _
    rw [hfind]
    rfl
  have hstart : (FramePool.ledger.besides ∅).Carries mem ∅ :=
    ⟨⟨hfits, Set.empty_subset _⟩, forest_empty _ _⟩
  obtain ⟨hreserved, grant⟩ := hstart.reserve allocate
  have hbelow := grant.below
  rw [pageRoundUp_pageRoundUp] at hbelow
  -- From here on the frames of the image are in other use.
  obtain ⟨hloaded, -⟩ := hreserved.overwrite
    (fun ram => loadImage ram a name image m.data.length) fun n hn => by
      rw [← hsizeOf]
      refine Scheduler.frame_loadImage_of_allocate hfits.addressable.grantsPages
        (hsizeOf.symm ▸ allocate) ?_
      rw [hsizeOf]
      exact fun hin => hn (Or.inr hin)
  obtain ⟨kernelBase, userBase, root, holding⟩ := Task.holding_of_build build
  have hroom := FramePool.room_below_stacks hfits (congrArg Prod.fst (frames_of_allocate allocate))
  rw [pageRoundUp_pageRoundUp] at hroom
  obtain ⟨spread, laidOut, hkept⟩ := Task.build_laidOut hloaded
    (by rw [LinearWindow.toPhys_toVirt]; exact grant.placed) hsize hroom build
  have hentry : task.entry = LinearWindow.kernel.toVirt image := congrArg Holding.entry holding
  refine task.shows_of_laidOut spread laidOut (congrArg Holding.imageSize holding) fun i hi => ?_
  rw [hentry, LinearWindow.toPhys_toVirt, Ram.byte_of_frame_eq (hkept _ (Or.inr ?_)),
    Memory.mapRam_ram, byte_loadImage_archive hfind _ (by omega) hi]
  rw [framesFrom_pageRoundUp]
  exact frameNumber_plus_mem grant.aligned hi hbelow

/-! ## Launching -/

/-- Take any scheduler that a run leads to, and any memory whose frames end below 2 ^ 48. A
    launch that succeeds runs the member of the archive that it was asked for: its task is
    fresh, runs on its own installed table with the stack pointers that the target names, and
    sees the member, its stacks and nothing else. The task that ran before is the last in the
    queue for how it left off, and every other task and queue position is as before. -/
theorem launched_task_runs_image {F' P' S' : Type} [FrameSource F'] [Platform P'] [ImageSource S']
    {log : List Answer} {s : Scheduler} (run : Run F' P' S' log s) (a : Archive) (name : String)
    (mode : LaunchMode) {mem : Memory FramePool} (hfits : mem.frames.Fits) (hw : Recorder)
    {target : LaunchTarget} {s' : Scheduler} {mem' : Memory FramePool} {hw' : Recorder}
    (launch : s.prepare mem hw a name mode = (.ok target, s', mem', hw')) :
    ∃ m task, a.find? name = some m ∧ s.TakenOver mode task s' ∧
      task.id ∉ log.filterMap Answer.createdId? ∧
      target = ⟨task.id, Layout.imageBase, Layout.initialUserSp, task.kernelStack.top,
        task.space.root⟩ ∧
      hw'.pageTable = task.space.root ∧ hw'.pageTableLoads = hw.pageTableLoads + 1 ∧
      task.Shows mem'.ram m.data ∧
      ∀ prev old kind, s.current = some prev → s.store.get? prev = some old →
        (mode = .spawn ∧ old.state = .running ∧ kind = .ready ∨ mode = .replace ∧ kind = .zombie) →
        s'.store.get? prev = some { old with state := kind.state, queue := some kind } ∧
        ∀ kind', (s'.store.queue kind').ids =
          (s.store.queue kind').ids ++ if kind' = kind then [prev] else [] := by
  have hend := Scheduler.prepare_end run.settled.seated mem hw a name mode
  rw [launch] at hend
  cases hend with
  | @started image task mem₁ _ _ size allocate build rearranged handed =>
    obtain ⟨m, hfind, hsize⟩ := Archive.exists_of_sizeOf size
    rw [hsize] at size allocate build
    obtain ⟨hid, -, hqueue⟩ := Task.fresh_of_build build
    have hcontext := Task.context_of_build build
    have hover := Scheduler.takenOver_of_handedOver run.settled.seated hid hqueue handed
    have hshows := Task.shows_of_build hfits hfind size allocate build
    -- What a task sees does not depend on its state or its queue.
    refine ⟨m, task.dispatched, hfind, hover, ?_, ?_, ?_, rfl, ⟨hshows.imageSize, hshows.sized,
      hshows.image, hshows.gap, hshows.userStack, hshows.kernelStack, hshows.hidden⟩,
      fun prev old kind hcurrent hold hkind => hover.displaced hcurrent hold hkind⟩
    · -- Numbers are given out in order, and this one is next.
      rw [hover.number, run.createdIds, List.mem_map]
      rintro ⟨n, hn, heq⟩
      rw [List.mem_range] at hn
      have hsame := congrArg TaskId.val heq
      exact absurd hsame (Nat.ne_of_lt hn)
    · rw [hover.number, Task.pageTable, hcontext]
      rfl
    · show task.pageTable = task.space.root
      rw [Task.pageTable, hcontext]
      rfl

/-- The idle task is replaced by a program of three bytes. -/
theorem launched_task_runs_image_replace :
    ∃ log s, Run FramePool Recorder ImageTable log s ∧
      ∃ (a : Archive) (mem : Memory FramePool) (target : LaunchTarget) (s' : Scheduler)
        (mem' : Memory FramePool) (hw' : Recorder),
        s.prepare mem Recorder.new a "/bin/init" .replace = (.ok target, s', mem', hw') ∧
        target.task = ⟨1⟩ ∧ hw'.pageTable = target.pageTable ∧ s'.store.zombie.ids = [⟨0⟩] ∧
        ∃ task, s.TakenOver .replace task s' ∧ task.Shows mem'.ram [1, 2, 3] := by
  let a : Archive := ⟨Archive.write [⟨"readme", 0o100644, [7]⟩, ⟨"bin/init", 0o100755, [1, 2, 3]⟩]⟩
  let mem : Memory FramePool := ⟨.zero, .ofPages 32⟩
  have hfits : mem.frames.Fits := by
    unfold FramePool.Fits
    decide
  have run := Run.nil.step (.init ⟨kernelBase⟩ : Request ImageTable)
    (⟨.zero, .ofPages 32⟩ : Memory FramePool) Recorder.new rfl
  refine ⟨_, _, run, a, mem, ?_⟩
  generalize hstart : (Scheduler.empty.answer (⟨.zero, .ofPages 32⟩ : Memory FramePool)
    Recorder.new (.init ⟨kernelBase⟩ : Request ImageTable)).2.1 = s at run ⊢
  obtain ⟨target, s', mem', hw', hlaunch, htask, hzombie⟩ : ∃ target s' mem' hw',
      s.prepare mem Recorder.new a "/bin/init" .replace = (.ok target, s', mem', hw') ∧
      target.task = ⟨1⟩ ∧ s'.store.zombie.ids = [⟨0⟩] := by
    subst hstart
    exact ⟨⟨⟨1⟩, Layout.imageBase, Layout.initialUserSp, ⟨0xffff000000102000⟩, ⟨0x105000⟩⟩, _, _, _,
      Prod.ext (by decide +kernel) rfl, rfl, by decide +kernel⟩
  obtain ⟨m, task, hfind, hover, -, htarget, htable, -, hshows, -⟩ :=
    launched_task_runs_image run a "/bin/init" .replace hfits Recorder.new hlaunch
  have hmember : a.find? "/bin/init" = some ⟨"bin/init", 0o100755, [1, 2, 3]⟩ := by decide +kernel
  cases hmember.symm.trans hfind
  exact ⟨target, s', mem', hw', hlaunch, htask, by rw [htable, htarget], hzombie, task, hover,
    hshows⟩

end TaskKernel
