/-
  TaskKernel.Proofs.Machine.FailedLaunch

  What is left of a launch that failed. The scheduler is as it was, and so is the table that the
  hardware walks. Of the frames that were taken on the way, the stacks and the image have come
  back, the image last; translation tables are the only frames that stay allocated.
-/
import TaskKernel.Proofs.Machine.Accounting
import TaskKernel.Proofs.Machine.Estate
import TaskKernel.Proofs.Scheduler.Launches
import TaskKernel.Proofs.Scheduler.Placement

namespace TaskKernel

/-! ## Abandoned constructions -/

/-- Sizes of the stacks that a construction had taken when it failed. -/
def TaskError.stackSizes : TaskError → List Nat
  | outOfMemory .kernelStack => []
  | outOfMemory .userStack => [Layout.kernelStackSize]
  | _ => [Layout.kernelStackSize, Layout.userStackSize]

/-- What a construction asks of the frame source if it is given up: the stacks that it took go
    back, the tables do not. -/
def abandoned (owned : List Allocation) (tables : List PhysAddr) : List FrameEvent :=
  owned.map .taken ++ tables.map .table ++ owned.map .returned

theorem tablesOf_taken (allocations : List Allocation) : tablesOf (allocations.map .taken) = 0 := by
  induction allocations with
  | nil => rfl
  | cons a allocations ih => exact ih

theorem settle_taken (books : Multiset Allocation) (allocations : List Allocation) :
    settle books (allocations.map .taken) = some (↑allocations + books) := by
  induction allocations generalizing books with
  | nil => exact congrArg some (zero_add books).symm
  | cons a allocations ih =>
    rw [List.map_cons, settle, FrameEvent.settle, Option.bind_some, ih, ← Multiset.cons_coe,
      Multiset.cons_add, Multiset.add_cons]

section

variable (owned : List Allocation) (tables : List PhysAddr)

theorem tablesOf_abandoned : tablesOf (abandoned owned tables) = tablesOf (tables.map .table) := by
  rw [abandoned, tablesOf_append, tablesOf_append, tablesOf_taken, tablesOf_returned, zero_add,
    add_zero]

/-- What was on the books stays there, with the tables beside it. -/
theorem settle_abandoned (books : Multiset Allocation) :
    settle books (abandoned owned tables) = some (books + tablesOf (abandoned owned tables)) := by
  rw [abandoned, settle_append, settle_append, settle_taken, Option.bind_some, settle_tables,
    Option.bind_some, add_assoc, settle_returned, ← abandoned, tablesOf_abandoned]

end

/-- A construction that fails has been abandoned with as many stacks as the error tells. -/
theorem Task.abandoned_of_build {F : Type} [FrameSource F] {mem mem' : Memory F} {id : TaskId}
    {entry : VirtAddr} {imageSize : Nat} {e : TaskError}
    (h : Task.build mem id entry imageSize = (.error e, mem')) :
    ∃ owned tables, owned.map Allocation.size = e.stackSizes ∧
      Traffic mem (abandoned owned tables) mem' := by
  cases build_end h with
  | noKernelStack kernel => exact ⟨[], [], rfl, .refused kernel (.nil _)⟩
  | @noUserStack kernelBase mem₁ mem₂ kernel user =>
    refine ⟨[⟨kernelBase, Layout.kernelStackSize⟩], [], rfl, ?_⟩
    exact .take kernel (.refused user (.returned (.nil _)))
  -- Tables may have been taken before the mapping gave up, and those are not given back.
  | @noSpace kernelBase userBase mem₁ mem₂ mem₃ cause kernel user space =>
    obtain ⟨tables, htables⟩ := buildSpace_takesTables mem₂ ⟨kernelBase, Layout.kernelStackSize⟩
      ⟨userBase, Layout.userStackSize⟩ entry imageSize
    rw [space] at htables
    have back : Traffic mem₃ [.returned ⟨kernelBase, Layout.kernelStackSize⟩,
        .returned ⟨userBase, Layout.userStackSize⟩]
        ((mem₃.release kernelBase Layout.kernelStackSize).release userBase Layout.userStackSize) :=
      .returned (.returned (.nil _))
    refine ⟨[⟨kernelBase, Layout.kernelStackSize⟩, ⟨userBase, Layout.userStackSize⟩], tables,
      ?_, ?_⟩
    · cases cause <;> rfl
    · exact .take kernel (.take user (htables.trans back))

/-! ## What stays allocated -/

/-- On the way from `mem` to `mem'` all that happened is `events`. Each return matches an
    allocation, everything that was allocated still is, and what is allocated besides are
    tables, in frames that were free. -/
structure LeavesTables (mem : Memory FramePool) (events : List FrameEvent)
    (mem' : Memory FramePool) : Prop where
  traffic : Traffic mem events mem'
  settled : settle 0 events = some (tablesOf events)
  pages : mem'.frames.used.length = mem.frames.used.length
  held : mem'.frames.heldFrames = mem.frames.heldFrames ∪ framesOf (tablesOf events)
  fresh : Disjoint mem.frames.heldFrames (framesOf (tablesOf events))
  releases : mem'.frames.releases =
    mem.frames.releases ++ (returnsOf events).map fun a => (a.base, a.size)

theorem leavesTables_of_traffic {mem mem' : Memory FramePool} {events : List FrameEvent}
    (haddr : mem.frames.Addressable) (traffic : Traffic mem events mem')
    (settled : settle 0 events = some (tablesOf events)) : LeavesTables mem events mem' := by
  -- Before the launch nothing of it is on the books, after it the tables are.
  have hstart := FramePool.booked_start haddr
  rw [← zero_add (0 : Multiset Allocation)] at hstart
  obtain ⟨hbooked, -⟩ := hstart.traffic traffic settled
  rw [add_zero] at hbooked
  refine ⟨traffic, settled, length_used_of_traffic traffic, hbooked.held, ?_,
    releases_of_traffic traffic⟩
  rw [Set.disjoint_right]
  rintro n ⟨a, ha, hn⟩
  exact Set.disjoint_right.1 (hbooked.apart a ha) hn

/-! ## Failed launches -/

/-- What a launch that fails asks of the frame source: nothing but what it was refused, unless
    there was room for the image. -/
inductive LaunchTrace (mem : Memory FramePool) (size : Nat) :
    LaunchError → List FrameEvent → Prop
  | notFound : LaunchTrace mem size .notFound []
  | noRoom : LaunchTrace mem size .outOfMemory []
  | notBuilt {e : TaskError} {image : PhysAddr} {owned : List Allocation} {tables : List PhysAddr}
      (room : (mem.allocate (pageRoundUp size)).1 = some image)
      (sizes : owned.map Allocation.size = e.stackSizes) :
      LaunchTrace mem size (.task e) (.taken ⟨image, pageRoundUp size⟩ ::
        (abandoned owned tables ++ [.returned ⟨image, pageRoundUp size⟩]))

/-- The image comes back last. -/
theorem settle_image (image : Allocation) (owned : List Allocation) (tables : List PhysAddr) :
    settle 0 (.taken image :: (abandoned owned tables ++ [.returned image])) =
      some (tablesOf (.taken image :: (abandoned owned tables ++ [.returned image]))) := by
  have htables : tablesOf (.taken image :: (abandoned owned tables ++ [.returned image])) =
      tablesOf (abandoned owned tables) + 0 := tablesOf_append _ _
  rw [htables, add_zero, settle, FrameEvent.settle, Option.bind_some, settle_append,
    settle_abandoned, Option.bind_some]
  exact settle_returned [image] _

section

variable {S : Type} [ImageSource S] [LawfulImageSource S]

/-- A launch whose task could not be built leaves the tables that were made for it. -/
theorem leavesTables_of_notBuilt {mem mem₁ mem' : Memory FramePool}
    (haddr : mem.frames.Addressable) {images : S} {name : String} {image : PhysAddr} {id : TaskId}
    {e : TaskError}
    (allocate : mem.allocate (pageRoundUp (ImageSource.sizeOf images name)) = (some image, mem₁))
    (build : Task.build
      (mem₁.mapRam fun ram => loadImage ram images name image (ImageSource.sizeOf images name)) id
      (LinearWindow.kernel.toVirt image) (ImageSource.sizeOf images name) = (.error e, mem')) :
    ∃ events, LaunchTrace mem (ImageSource.sizeOf images name) (.task e) events ∧
      LeavesTables mem events
        (mem'.release image (pageRoundUp (ImageSource.sizeOf images name))) := by
  obtain ⟨owned, tables, sizes, hbuild⟩ := Task.abandoned_of_build build
  refine ⟨_, .notBuilt (congrArg Prod.fst allocate) sizes,
    leavesTables_of_traffic haddr ?_ (settle_image _ owned tables)⟩
  have back : Traffic mem' [.returned ⟨image, pageRoundUp (ImageSource.sizeOf images name)⟩]
      (mem'.release image (pageRoundUp (ImageSource.sizeOf images name))) := .returned (.nil _)
  have hpages := haddr.grantsPages
  exact .taken allocate _ (fun _ => Scheduler.frame_loadImage_of_allocate hpages allocate)
    (hbuild.trans back)

/-- Take any scheduler that a run leads to, and let the pool give out at whatever request. A
    launch reports an image that is missing and an image that there is no room for exactly when
    these are so. Whatever it fails with, the scheduler and the installed table are as before,
    and the only frames that were not allocated before are those of translation tables: image
    and stacks were given back. The one other failure is that of building the task, after which
    the timer is let through again. -/
theorem failed_launch_leaves_tables {F' P' S' : Type} [FrameSource F'] [Platform P']
    [ImageSource S'] {log : List Answer} {s : Scheduler} (run : Run F' P' S' log s)
    (images : S) (name : String) (mode : LaunchMode) {mem : Memory FramePool}
    (haddr : mem.frames.Addressable) (hw : Recorder) {result : Except LaunchError LaunchTarget}
    {s' : Scheduler} {mem' : Memory FramePool} {hw' : Recorder}
    (launch : s.prepare mem hw images name mode = (result, s', mem', hw')) :
    (result = .error .notFound ↔ ImageSource.sizeOf images name = 0) ∧
    (result = .error .outOfMemory ↔ ImageSource.sizeOf images name ≠ 0 ∧
      (mem.allocate (pageRoundUp (ImageSource.sizeOf images name))).1 = none) ∧
    ∀ e, result = .error e →
      s' = s ∧ hw'.pageTable = hw.pageTable ∧ hw'.pageTableLoads = hw.pageTableLoads ∧
      (∃ events, LaunchTrace mem (ImageSource.sizeOf images name) e events ∧
        LeavesTables mem events mem') ∧
      (e = .notFound ∨ e = .outOfMemory ∨ ∃ cause, e = .task cause ∧ hw'.timerEnabled = true) := by
  have hend := Scheduler.prepare_end run.settled.seated mem hw images name mode
  rw [launch] at hend
  cases hend with
  | notFound size =>
    refine ⟨iff_of_true rfl size, iff_of_false (by rintro ⟨⟩) fun h => h.1 size, ?_⟩
    rintro e ⟨⟩
    exact ⟨rfl, rfl, rfl, ⟨[], .notFound, leavesTables_of_traffic haddr (.nil _) rfl⟩, Or.inl rfl⟩
  | noRoom size allocate =>
    refine ⟨iff_of_false (by rintro ⟨⟩) size,
      iff_of_true rfl ⟨size, congrArg Prod.fst allocate⟩, ?_⟩
    rintro e ⟨⟩
    exact ⟨rfl, rfl, rfl, ⟨[], .noRoom, leavesTables_of_traffic haddr (.refused allocate (.nil _))
      rfl⟩, Or.inr (Or.inl rfl)⟩
  | notBuilt size allocate build =>
    have hroom : (mem.allocate (pageRoundUp (ImageSource.sizeOf images name))).1 ≠ none := by
      rw [allocate]
      rintro ⟨⟩
    refine ⟨iff_of_false (by rintro ⟨⟩) size, iff_of_false (by rintro ⟨⟩) fun h => hroom h.2, ?_⟩
    rintro e ⟨⟩
    exact ⟨rfl, rfl, rfl, leavesTables_of_notBuilt haddr allocate build,
      Or.inr (Or.inr ⟨_, rfl, rfl⟩)⟩
  | started size allocate build rearranged handed =>
    have hroom : (mem.allocate (pageRoundUp (ImageSource.sizeOf images name))).1 ≠ none := by
      rw [allocate]
      rintro ⟨⟩
    refine ⟨iff_of_false (by rintro ⟨⟩) size, iff_of_false (by rintro ⟨⟩) fun h => hroom h.2, ?_⟩
    rintro e ⟨⟩

end

/-- The pool gives out after the root and one more table; three ranges come back, two frames
    stay. -/
theorem failed_launch_leaves_tables_halfway :
    ∃ log s, Run FramePool Recorder ImageTable log s ∧
      ∃ (mem : Memory FramePool) (s' : Scheduler) (mem' : Memory FramePool) (hw' : Recorder),
        s.prepare mem Recorder.new (⟨[("init", [1, 2, 3])]⟩ : ImageTable) "init" .spawn =
          (.error (.task (.outOfMemory .pageTable)), s', mem', hw') ∧
        s' = s ∧ hw'.pageTableLoads = 0 ∧ hw'.timerEnabled = true ∧
        (∃ events, LaunchTrace mem 3 (.task (.outOfMemory .pageTable)) events ∧
          LeavesTables mem events mem') ∧
        mem'.frames.usedPages = mem.frames.usedPages + 2 ∧
        mem'.frames.releases.map (·.2) = [4096, 12288, 4096] := by
  let images : ImageTable := ⟨[("init", [1, 2, 3])]⟩
  let mem : Memory FramePool := ⟨.zero, (FramePool.ofPages 32).failAfter 5⟩
  have haddr : mem.frames.Addressable := by
    unfold FramePool.Addressable
    decide
  have run := Run.nil.step (.init ⟨kernelBase⟩ : Request ImageTable)
    (⟨.zero, .ofPages 32⟩ : Memory FramePool) Recorder.new rfl
  refine ⟨_, _, run, mem, ?_⟩
  generalize hstart : (Scheduler.empty.answer (⟨.zero, .ofPages 32⟩ : Memory FramePool)
    Recorder.new (.init ⟨kernelBase⟩ : Request ImageTable)).2.1 = s at run ⊢
  obtain ⟨s', mem', hw', hlaunch, hused, hreleases⟩ : ∃ s' mem' hw',
      s.prepare mem Recorder.new images "init" .spawn =
        (.error (.task (.outOfMemory .pageTable)), s', mem', hw') ∧
      mem'.frames.usedPages = mem.frames.usedPages + 2 ∧
      mem'.frames.releases.map (·.2) = [4096, 12288, 4096] := by
    subst hstart
    exact ⟨_, _, _, Prod.ext (by decide +kernel) rfl, by decide +kernel, by decide +kernel⟩
  obtain ⟨hs, -, hloads, htrace, htimer⟩ :=
    (failed_launch_leaves_tables run images "init" .spawn haddr Recorder.new hlaunch).2.2 _ rfl
  obtain ⟨⟨⟩⟩ | ⟨⟨⟩⟩ | ⟨_, -, htimer⟩ := htimer
  exact ⟨s', mem', hw', hlaunch, hs, hloads, htimer, htrace, hused, hreleases⟩

end TaskKernel
