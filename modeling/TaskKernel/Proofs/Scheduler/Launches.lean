/-
  TaskKernel.Proofs.Scheduler.Launches

  The ways a launch can end. Three of them are errors, and leave the scheduler as it was; in
  the fourth the new task takes over from the one that was running. An error of the scheduler
  is not among them: a fresh task is on the ready queue, and a ready task is always adopted.
-/
import TaskKernel.Proofs.Scheduler.HandOver

namespace TaskKernel

namespace Scheduler

open TaskStore

/-- The scheduler with a fresh task at the tail of its ready queue. -/
def enlist (s : Scheduler) (task : Task) : Scheduler :=
  { s with store := ((s.store.enroll task).enqueue .ready ⟨s.store.nextId⟩).2 }

section

variable {F P S : Type} [FrameSource F] [Platform P] [ImageSource S] {s : Scheduler}

/-- What the scheduler finds of its tasks once a fresh one is enlisted. -/
theorem get?_enlist (h : s.store.Linked) {task : Task} (hid : task.id = ⟨s.store.nextId⟩)
    (id : TaskId) : (s.enlist task).store.get? id =
      if id = ⟨s.store.nextId⟩ then some { task with queue := some .ready }
      else s.store.get? id := by
  rw [enlist, get?_enqueue .ready (get?_enroll_self h hid), get?_enroll h hid]
  split <;> rfl

/-- A fresh task on the ready queue leaves the running one as it was. -/
theorem Seated.enroll (h : s.Seated) {task : Task} (hid : task.id = ⟨s.store.nextId⟩)
    (hqueue : task.queue = none) :
    (s.enlist task).Seated ∧ ⟨s.store.nextId⟩ ∈ ((s.enlist task).store.queue .ready).ids := by
  have hget := get?_enlist h.linked hid
  have hlinked : (s.enlist task).store.Linked :=
    (h.linked.enroll hid hqueue).enqueue .ready (get?_enroll_self h.linked hid)
  refine ⟨h.of_store hlinked fun id hcurrent => ?_,
    (hlinked.mem_queue_iff ((hget _).trans (if_pos rfl)) .ready).2 rfl⟩
  obtain ⟨old, hold, -⟩ := h.current id hcurrent
  refine (hget id).trans (if_neg ?_)
  rintro rfl
  exact h.linked.get?_nextId old hold

theorem holdings_enlisted (s : Scheduler) (task : Task) :
    (s.enlist task).store.holdings = s.store.holdings ++ [task.holding] := by
  rw [enlist, holdings_enqueue, holdings_enroll]

/-! ## Launching -/

/-- How a launch ends, with all that it leaves behind. -/
inductive LaunchEnd (s : Scheduler) (mem : Memory F) (hw : P) (images : S) (name : String)
    (mode : LaunchMode) : Except LaunchError LaunchTarget × Scheduler × Memory F × P → Prop
  | notFound (size : ImageSource.sizeOf images name = 0) :
      LaunchEnd s mem hw images name mode (.error .notFound, s, mem, hw)
  | noRoom {mem₁ : Memory F} (size : ImageSource.sizeOf images name ≠ 0)
      (allocate : mem.allocate (pageRoundUp (ImageSource.sizeOf images name)) = (none, mem₁)) :
      LaunchEnd s mem hw images name mode (.error .outOfMemory, s, mem₁, hw)
  | notBuilt {image : PhysAddr} {e : TaskError} {mem₁ mem' : Memory F}
      (size : ImageSource.sizeOf images name ≠ 0)
      (allocate : mem.allocate (pageRoundUp (ImageSource.sizeOf images name)) = (some image, mem₁))
      (build : Task.build
        (mem₁.mapRam fun ram => loadImage ram images name image (ImageSource.sizeOf images name))
        ⟨s.store.nextId⟩ (LinearWindow.kernel.toVirt image) (ImageSource.sizeOf images name) =
          (.error e, mem')) :
      LaunchEnd s mem hw images name mode
        (.error (.task e), s, mem'.release image (pageRoundUp (ImageSource.sizeOf images name)),
          Platform.timerEnable (Platform.timerDisable hw))
  | started {image : PhysAddr} {task : Task} {mem₁ mem' : Memory F} {s' : Scheduler}
      (size : ImageSource.sizeOf images name ≠ 0)
      (allocate : mem.allocate (pageRoundUp (ImageSource.sizeOf images name)) = (some image, mem₁))
      (build : Task.build
        (mem₁.mapRam fun ram => loadImage ram images name image (ImageSource.sizeOf images name))
        ⟨s.store.nextId⟩ (LinearWindow.kernel.toVirt image) (ImageSource.sizeOf images name) =
          (.ok task, mem'))
      (rearranged : (s.enlist task).Rearranged s')
      (handed : HandedOver (s.enlist task) mode.outgoing.leave ⟨s.store.nextId⟩ s') :
      LaunchEnd s mem hw images name mode
        (.ok ⟨⟨s.store.nextId⟩, Layout.imageBase, task.context.sp, task.kernelStack.top,
          task.pageTable⟩, s', mem',
          Platform.timerEnable (Platform.setPageTable (Platform.timerDisable hw) task.pageTable))

theorem prepare_end (h : s.Seated) (mem : Memory F) (hw : P) (images : S) (name : String)
    (mode : LaunchMode) :
    LaunchEnd s mem hw images name mode (s.prepare mem hw images name mode) := by
  by_cases hsize : ImageSource.sizeOf images name = 0
  · simp only [prepare, if_pos hsize]
    exact .notFound hsize
  rcases halloc : mem.allocate (pageRoundUp (ImageSource.sizeOf images name)) with ⟨image, mem₁⟩
  cases image with
  | none =>
      simp only [prepare, if_neg hsize, halloc]
      exact .noRoom hsize halloc
  | some image =>
      rcases hbuild : Task.build
          (mem₁.mapRam fun ram => loadImage ram images name image (ImageSource.sizeOf images name))
          ⟨s.store.nextId⟩ (LinearWindow.kernel.toVirt image) (ImageSource.sizeOf images name) with
        ⟨result, mem'⟩
      cases result with
      | error e =>
          simp only [prepare, if_neg hsize, halloc, createTask, create_of_error hbuild]
          exact .notBuilt hsize halloc hbuild
      | ok task =>
          obtain ⟨hid, -, hqueue⟩ := Task.fresh_of_build hbuild
          obtain ⟨hseated, hmem⟩ := h.enroll hid hqueue
          have hget := (get?_enlist h.linked hid _).trans (if_pos rfl)
          obtain ⟨s', hadopt, handed⟩ := adopt_handedOver hseated hmem mode.outgoing
          obtain ⟨s'', hadopt', hrearranged⟩ := adopt_rearranged_of_mem hseated hmem mode.outgoing
          -- It was just put on the ready queue, so it is adopted.
          cases hadopt.symm.trans hadopt'
          rw [enlist] at hget hadopt
          simp only [prepare, if_neg hsize, halloc, createTask, create_of_ok hbuild, enterTask,
            hget, hadopt]
          exact .started hsize halloc hbuild hrearranged handed

/-- A launch fails without a trace in the scheduler, or runs the task with the next
    number; the scheduler never refuses the task. -/
theorem prepare_settled (h : s.Settled) (mem : Memory F) (hw : P) (images : S) (name : String)
    (mode : LaunchMode) :
    (∃ e mem' hw', s.prepare mem hw images name mode = (.error e, s, mem', hw') ∧
      ∀ e', e ≠ .scheduler e') ∨
    ∃ target s' mem' hw', s.prepare mem hw images name mode = (.ok target, s', mem', hw') ∧
      target.task = ⟨s.store.nextId⟩ ∧ s'.Settled ∧ s'.store.nextId = s.store.nextId + 1 := by
  have hend := prepare_end h.seated mem hw images name mode
  generalize s.prepare mem hw images name mode = result at hend ⊢
  cases hend with
  | notFound size | noRoom size allocate | notBuilt size allocate build =>
      exact Or.inl ⟨_, _, _, rfl, by simp⟩
  | started size allocate build rearranged handed =>
      obtain ⟨hid, hstate, hqueue⟩ := Task.fresh_of_build build
      have enlisted : (s.enlist _).Settled := enroll_settled h hid hstate hqueue
      exact Or.inr ⟨_, _, _, _, rfl, rfl, handed.settled enlisted rearranged.seated.linked,
        handed.nextId.trans (nextId_enqueue _ _ _)⟩

end

/-! ## Taking over -/

/-- The fresh task `task` runs. The one that ran before it has left off as `mode` says and is
    filed; nobody else is touched. -/
structure TakenOver (s : Scheduler) (mode : LaunchMode) (task : Task) (s' : Scheduler) : Prop where
  number : task.id = ⟨s.store.nextId⟩
  fresh : s.store.get? task.id = none
  nextId : s'.store.nextId = s.store.nextId + 1
  current : s'.current = some task.id
  get : s'.store.get? task.id = some task
  running : task.state = .running
  outgoing : ∀ prev old, s.current = some prev → s.store.get? prev = some old →
    s'.store.get? prev = some (mode.outgoing.leave old).filed
  others : ∀ id, id ≠ task.id → s.current ≠ some id → s'.store.get? id = s.store.get? id
  queues : ∀ kind, (s'.store.queue kind).ids =
    (s.store.queue kind).ids ++ s.leaving mode.outgoing.leave kind

section

variable {s s' : Scheduler} {mode : LaunchMode} {task : Task}

theorem leaving_enlist (h : s.Seated) (hid : task.id = ⟨s.store.nextId⟩) (leave : Task → Task)
    (kind : QueueKind) : (s.enlist task).leaving leave kind = s.leaving leave kind := by
  cases hcurrent : s.current with
  | none =>
      have hcurrent' : (s.enlist task).current = none := hcurrent
      rw [leaving_of_none hcurrent, leaving_of_none hcurrent']
  | some prev =>
      obtain ⟨old, hold, -⟩ := h.current prev hcurrent
      have hne : prev ≠ ⟨s.store.nextId⟩ := by
        rintro rfl
        exact h.linked.get?_nextId old hold
      have hold' := (get?_enlist h.linked hid prev).trans ((if_neg hne).trans hold)
      rw [leaving_of_get? hcurrent hold, leaving_of_get? (s := s.enlist task) hcurrent hold']

/-- The fresh task was last in the queue that it leaves. -/
theorem ids_enlist_erase (h : s.store.Linked) (hid : task.id = ⟨s.store.nextId⟩)
    (hqueue : task.queue = none) (kind : QueueKind) :
    ((s.enlist task).store.queue kind).ids.erase ⟨s.store.nextId⟩ = (s.store.queue kind).ids := by
  rw [enlist, h.ids_enlisted hid hqueue, List.erase_append, if_neg (h.nextId_not_mem kind)]
  split
  · rw [List.erase_cons_head, List.append_nil]
  · rw [List.erase_nil, List.append_nil]

theorem takenOver_of_handedOver (h : s.Seated) (hid : task.id = ⟨s.store.nextId⟩)
    (hqueue : task.queue = none)
    (handed : HandedOver (s.enlist task) mode.outgoing.leave ⟨s.store.nextId⟩ s') :
    s.TakenOver mode task.dispatched s' := by
  obtain ⟨listed, hlisted, -, hget⟩ := handed.incoming
  cases ((get?_enlist h.linked hid _).trans (if_pos rfl)).symm.trans hlisted
  have hid' : task.dispatched.id = ⟨s.store.nextId⟩ := hid
  refine ⟨hid, ?_, ?_, ?_, ?_, rfl, fun prev old hcurrent hold => ?_, fun id hne hother => ?_,
    fun kind => ?_⟩
  · rw [hid']
    exact Option.eq_none_iff_forall_ne_some.2 fun old => h.linked.get?_nextId old
  · rw [handed.nextId, enlist, nextId_enqueue]
    rfl
  · rw [hid', handed.current]
  · rw [hid', hget]
    rfl
  · have hne : prev ≠ ⟨s.store.nextId⟩ := by
      rintro rfl
      exact h.linked.get?_nextId old hold
    have hold' := (get?_enlist h.linked hid prev).trans ((if_neg hne).trans hold)
    exact handed.outgoing prev old hcurrent hold'
  · rw [hid'] at hne
    rw [handed.others id hne hother, get?_enlist h.linked hid, if_neg hne]
  · rw [handed.queues, ids_enlist_erase h.linked hid hqueue, leaving_enlist h hid]

/-- A task that was running goes to the tail of the ready queue, one that is replaced to the
    tail of the zombie queue. -/
theorem TakenOver.displaced (h : s.TakenOver mode task s') {prev : TaskId} {old : Task}
    (hcurrent : s.current = some prev) (hold : s.store.get? prev = some old) {kind : QueueKind}
    (hkind : mode = .spawn ∧ old.state = .running ∧ kind = .ready ∨
      mode = .replace ∧ kind = .zombie) :
    s'.store.get? prev = some { old with state := kind.state, queue := some kind } ∧
      ∀ kind', (s'.store.queue kind').ids =
        (s.store.queue kind').ids ++ if kind' = kind then [prev] else [] := by
  have hdestination : (mode.outgoing.leave old).state.destination = kind := by
    rcases hkind with ⟨rfl, hstate, rfl⟩ | ⟨rfl, rfl⟩
    · exact congrArg TaskState.destination hstate
    · rfl
  have hfiled : (mode.outgoing.leave old).filed =
      { old with state := kind.state, queue := some kind } := by
    rw [Task.filed, hdestination]
    cases mode <;> rfl
  refine ⟨(h.outgoing prev old hcurrent hold).trans (congrArg some hfiled), fun kind' => ?_⟩
  rw [h.queues, leaving_of_get? hcurrent hold, hdestination]

end

end Scheduler

end TaskKernel
