/-
  TaskKernel.Proofs.Scheduler.Effects

  What a request does to memory and to what the tasks hold. Three kinds of requests reach
  memory: creations and launches, which build a task around an image, and reaping. Each way
  such a request can end is one case; every other request leaves memory and holdings alone.
-/
import TaskKernel.Proofs.Scheduler.Launches
import TaskKernel.Proofs.Scheduler.Requests

namespace TaskKernel

/-- The image that a request wants a task for, if the caller supplies it. -/
def Request.image? {S : Type} : Request S → Option (VirtAddr × Nat)
  | init entry => some (entry, pageSize)
  | create entry imageSize => some (entry, imageSize)
  | _ => none

/-- The request asks for a task, and if it is to be launched its image is there. -/
def Request.Builds {S : Type} [ImageSource S] : Request S → Prop
  | init _ | create _ _ => True
  | prepare images name _ => ImageSource.sizeOf images name ≠ 0
  | _ => False

/-- The task that a launch has started. -/
def Answer.launched? : Answer → Option TaskId
  | launched (.ok target) => some target.task
  | _ => none

namespace Scheduler

open TaskStore

section

variable {F P S : Type} [FrameSource F] [Platform P] [ImageSource S]

/-- How a request can end, as far as memory and holdings are concerned. -/
inductive Effect (s : Scheduler) (mem : Memory F) :
    Request S → Answer → Scheduler → Memory F → Prop
  /-- Memory and holdings are as before, no task being asked for. -/
  | kept {request : Request S} {answer : Answer} {s' : Scheduler} (quiet : ¬ request.Builds)
      (holdings : s'.store.holdings = s.store.holdings) (launched : answer.launched? = none) :
      Effect s mem request answer s' mem
  | created {request : Request S} {entry : VirtAddr} {imageSize : Nat} {task : Task}
      {s' : Scheduler} {mem' : Memory F} (asked : request.image? = some (entry, imageSize))
      (build : Task.build mem ⟨s.store.nextId⟩ entry imageSize = (.ok task, mem'))
      (holdings : s'.store.holdings = s.store.holdings ++ [task.holding]) :
      Effect s mem request (.created (.ok ⟨s.store.nextId⟩)) s' mem'
  | notCreated {request : Request S} {entry : VirtAddr} {imageSize : Nat} {e : TaskError}
      {mem' : Memory F} (asked : request.image? = some (entry, imageSize))
      (build : Task.build mem ⟨s.store.nextId⟩ entry imageSize = (.error e, mem')) :
      Effect s mem request (.created (.error e)) s mem'
  | launched {images : S} {name : String} {mode : LaunchMode} {image : PhysAddr} {task : Task}
      {target : LaunchTarget} {s' : Scheduler} {mem₁ mem' : Memory F}
      (size : ImageSource.sizeOf images name ≠ 0)
      (allocate : mem.allocate (pageRoundUp (ImageSource.sizeOf images name)) = (some image, mem₁))
      (build : Task.build
        (mem₁.mapRam fun ram => loadImage ram images name image (ImageSource.sizeOf images name))
        ⟨s.store.nextId⟩ (LinearWindow.kernel.toVirt image) (ImageSource.sizeOf images name) =
          (.ok task, mem'))
      (holdings : s'.store.holdings = s.store.holdings ++ [task.holding])
      (started : target.task = ⟨s.store.nextId⟩) :
      Effect s mem (.prepare images name mode) (.launched (.ok target)) s' mem'
  | notLaunched {images : S} {name : String} {mode : LaunchMode} {image : PhysAddr}
      {e : TaskError} {mem₁ mem' : Memory F} (size : ImageSource.sizeOf images name ≠ 0)
      (allocate : mem.allocate (pageRoundUp (ImageSource.sizeOf images name)) = (some image, mem₁))
      (build : Task.build
        (mem₁.mapRam fun ram => loadImage ram images name image (ImageSource.sizeOf images name))
        ⟨s.store.nextId⟩ (LinearWindow.kernel.toVirt image) (ImageSource.sizeOf images name) =
          (.error e, mem')) :
      Effect s mem (.prepare images name mode) (.launched (.error (.task e))) s
        (mem'.release image (pageRoundUp (ImageSource.sizeOf images name)))
  | noRoom {images : S} {name : String} {mode : LaunchMode} {mem₁ : Memory F}
      (allocate : mem.allocate (pageRoundUp (ImageSource.sizeOf images name)) = (none, mem₁)) :
      Effect s mem (.prepare images name mode) (.launched (.error .outOfMemory)) s mem₁
  | reaped {ids : List TaskId} {s' : Scheduler} {mem' : Memory F}
      (buried : Buried s.store mem ids s'.store mem') :
      Effect s mem .reap (.reaped ids) s' mem'

end

/-! ## Creating tasks -/

section

variable {F P S : Type} [FrameSource F] [Platform P] [ImageSource S] {s : Scheduler}

/-- Creating the idle task, whoever was running before. -/
theorem init_of_ok (h : s.Seated) {mem mem' : Memory F} {entry : VirtAddr} {task : Task}
    (hbuild : Task.build mem ⟨s.store.nextId⟩ entry pageSize = (.ok task, mem')) :
    ∃ s', s.init mem entry = (.ok ⟨s.store.nextId⟩, s', mem') ∧ s'.Seated ∧
      s'.store.holdings = s.store.holdings ++ [task.holding] := by
  obtain ⟨hid, -, hqueue⟩ := Task.fresh_of_build hbuild
  obtain ⟨hseated, hmem⟩ := h.enroll hid hqueue
  have hremove := remove_of_mem hmem
  rw [enlist] at hremove
  refine ⟨_, ?_, seated_dispatch hseated.linked hmem, ?_⟩
  · simp only [init, create_of_ok hbuild, hremove]
    rfl
  · rw [holdings_dispatch, holdings_enlisted]

/-- Of the ways a launch can end, the first alone takes no frame. -/
theorem prepare_effect (h : s.Seated) (mem : Memory F) (hw : P) (images : S) (name : String)
    (mode : LaunchMode) :
    Effect s mem (.prepare images name mode) (.launched (s.prepare mem hw images name mode).1)
      (s.prepare mem hw images name mode).2.1 (s.prepare mem hw images name mode).2.2.1 ∧
      (s.prepare mem hw images name mode).2.1.Seated := by
  have hend := prepare_end h mem hw images name mode
  generalize s.prepare mem hw images name mode = result at hend ⊢
  cases hend with
  | notFound size => exact ⟨.kept (fun builds => builds size) rfl rfl, h⟩
  | noRoom size allocate => exact ⟨.noRoom allocate, h⟩
  | notBuilt size allocate build => exact ⟨.notLaunched size allocate build, h⟩
  | started size allocate build rearranged handed =>
      refine ⟨.launched size allocate build ?_ rfl, rearranged.seated⟩
      rw [rearranged.holdings, holdings_enlisted]

/-! ## Every request -/

theorem Buried.linked {store store' : TaskStore} {mem mem' : Memory F} {ids : List TaskId}
    (buried : Buried store mem ids store' mem') (h : store.Linked) : store'.Linked := by
  induction buried with
  | nil => exact h
  | cons zombie get rest ih => exact ih (h.bury zombie)

/-- A task in no queue is not buried. -/
theorem Buried.get?_eq {store store' : TaskStore} {mem mem' : Memory F} {ids : List TaskId}
    (buried : Buried store mem ids store' mem') (h : store.Linked) {id : TaskId} {task : Task}
    (hget : store.get? id = some task) (hqueue : task.queue = none) :
    store'.get? id = some task := by
  induction buried with
  | nil => exact hget
  | @cons _ _ _ _ zombieId _ _ zombie get rest ih =>
      refine ih (h.bury zombie) ?_
      -- Whoever is buried is on the zombie queue.
      rw [get?_bury get, if_neg, hget]
      rintro rfl
      rw [h.mem_queue_iff hget, hqueue] at zombie
      cases zombie

/-- Every request ends in one of the listed ways, and the running task keeps its seat. -/
theorem Seated.effect (h : s.Seated) (mem : Memory F) (hw : P) (request : Request S) :
    Effect s mem request (s.answer mem hw request).1 (s.answer mem hw request).2.1
      (s.answer mem hw request).2.2.1 ∧ (s.answer mem hw request).2.1.Seated := by
  cases request with
  | init entry =>
      rcases hbuild : Task.build mem ⟨s.store.nextId⟩ entry pageSize with ⟨result, mem'⟩
      cases result with
      | error e =>
          simp only [answer, init, create_of_error hbuild]
          exact ⟨.notCreated rfl hbuild, h⟩
      | ok task =>
          obtain ⟨s', heq, hseated, hholdings⟩ := init_of_ok h hbuild
          simp only [answer, heq]
          exact ⟨.created rfl hbuild hholdings, hseated⟩
  | create entry imageSize =>
      rcases hbuild : Task.build mem ⟨s.store.nextId⟩ entry imageSize with ⟨result, mem'⟩
      cases result with
      | error e =>
          simp only [answer, createTask, create_of_error hbuild]
          exact ⟨.notCreated rfl hbuild, h⟩
      | ok task =>
          obtain ⟨hid, -, hqueue⟩ := Task.fresh_of_build hbuild
          simp only [answer, createTask, create_of_ok hbuild]
          exact ⟨.created rfl hbuild (holdings_enlisted s task), (h.enroll hid hqueue).1⟩
  | prepare images name mode => exact prepare_effect h mem hw images name mode
  | schedule =>
      have hrearranged := schedule_rearranged h hw
      exact ⟨.kept not_false hrearranged.holdings rfl, hrearranged.seated⟩
  | tick =>
      have hrearranged := tick_rearranged h
      exact ⟨.kept not_false hrearranged.holdings rfl, hrearranged.seated⟩
  | terminate id =>
      have hrearranged := terminate_rearranged h id hw
      exact ⟨.kept not_false hrearranged.holdings rfl, hrearranged.seated⟩
  | exit =>
      have hrearranged := exit_rearranged h hw
      exact ⟨.kept not_false hrearranged.holdings rfl, hrearranged.seated⟩
  | blockCurrent =>
      have hrearranged := blockCurrent_rearranged h hw
      exact ⟨.kept not_false hrearranged.holdings rfl, hrearranged.seated⟩
  | wake id =>
      have hrearranged := wake_rearranged h id
      exact ⟨.kept not_false hrearranged.holdings rfl, hrearranged.seated⟩
  | adopt id mode =>
      have hrearranged := adopt_rearranged h id mode
      exact ⟨.kept not_false hrearranged.holdings rfl, hrearranged.seated⟩
  | reap =>
      have buried := reapZombies_buried s.store.zombie.length h.linked mem
      -- The running task is in no queue, so reaping does not see it.
      refine ⟨.reaped buried, h.of_store (buried.linked h.linked) fun id hcurrent => ?_⟩
      obtain ⟨task, hget, hqueue, -⟩ := h.current id hcurrent
      rw [buried.get?_eq h.linked hget hqueue, hget]

end

end Scheduler

end TaskKernel
