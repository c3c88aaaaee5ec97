/-
  TaskKernel.Proofs.Scheduler.Placement

  Where the tasks of a scheduler are. After any run of requests each live task is in
  exactly one of the three queues or in the slot of the running task, its `queue`
  field names that place and its state fits it; numbers were handed out from zero on
  without a gap; and no request was ever answered with a complaint about a task whose
  state disagrees with the queues.
-/
import TaskKernel.Memory.FramePool
import TaskKernel.Proofs.Scheduler.Launches
import TaskKernel.Proofs.Scheduler.Requests

namespace TaskKernel
namespace Scheduler

open TaskStore

/-! ## Places -/

/-- The three queues and the slot of the running task, laid end to end. -/
def places (s : Scheduler) : List TaskId :=
  s.store.ready.ids ++ s.store.wait.ids ++ s.store.zombie.ids ++ s.current.toList

/-- Every live task is in one place, the one its `queue` field and its state call for,
    and every place holds live tasks only. -/
structure Placed (s : Scheduler) : Prop where
  /-- No two live tasks have the same number. -/
  distinct : s.store.liveIds.Nodup
  once : ∀ task ∈ s.store.tasks, s.places.count task.id = 1
  live : ∀ id ∈ s.places, id ∈ s.store.liveIds
  queue_iff : ∀ task ∈ s.store.tasks, ∀ kind,
    task.queue = some kind ↔ task.id ∈ (s.store.queue kind).ids
  current_iff : ∀ task ∈ s.store.tasks, task.queue = none ↔ s.current = some task.id
  state_of_queue : ∀ task ∈ s.store.tasks, ∀ kind,
    task.id ∈ (s.store.queue kind).ids → task.state = kind.state
  state_of_current : ∀ task ∈ s.store.tasks, s.current = some task.id → task.state ≠ .ready
  running : ∀ task ∈ s.store.tasks, task.state = .running → s.current = some task.id

namespace Settled

variable {s : Scheduler}

theorem count_queue (h : s.Settled) {id : TaskId} {task : Task} (hget : s.store.get? id = some task)
    (kind : QueueKind) :
    (s.store.queue kind).ids.count id = if task.queue = some kind then 1 else 0 := by
  split
  · next hqueue =>
      exact List.count_eq_one_of_mem (h.filed.linked.queue_nodup kind)
        ((h.filed.linked.mem_queue_iff hget kind).2 hqueue)
  · next hqueue =>
      exact List.count_eq_zero_of_not_mem fun hmem =>
        hqueue ((h.filed.linked.mem_queue_iff hget kind).1 hmem)

theorem current_iff (h : s.Settled) {id : TaskId} {task : Task}
    (hget : s.store.get? id = some task) : task.queue = none ↔ s.current = some id := by
  refine Iff.trans ?_ (h.filed.loose_iff id).symm
  simp [hget]

theorem count_current (h : s.Settled) {id : TaskId} {task : Task}
    (hget : s.store.get? id = some task) :
    s.current.toList.count id = if task.queue = none then 1 else 0 := by
  rw [if_congr (h.current_iff hget) rfl rfl]
  cases s.current with
  | none => rfl
  | some current => simp [List.count_singleton]

/-- The queue that holds a task, or none, is one of four cases, and in each the task
    is counted at that place only. -/
theorem count_places (h : s.Settled) {id : TaskId} {task : Task}
    (hget : s.store.get? id = some task) : s.places.count id = 1 := by
  have hready := h.count_queue hget .ready
  have hwait := h.count_queue hget .wait
  have hzombie := h.count_queue hget .zombie
  have hcurrent := h.count_current hget
  simp only [queue] at hready hwait hzombie
  rw [places, List.count_append, List.count_append, List.count_append, hready, hwait, hzombie,
    hcurrent]
  cases task.queue with
  | none => simp
  | some kind => cases kind <;> simp

theorem live (h : s.Settled) {id : TaskId} (hmem : id ∈ s.places) : id ∈ s.store.liveIds := by
  have hqueue : ∀ kind, id ∈ (s.store.queue kind).ids → id ∈ s.store.liveIds := by
    intro kind hin
    obtain ⟨task, hget, -, -⟩ := h.filed.get?_of_mem hin
    exact mem_liveIds.2 ⟨task, mem_of_get? hget, id_of_get? hget⟩
  simp only [places, List.mem_append, Option.mem_toList] at hmem
  rcases hmem with ((hready | hwait) | hzombie) | hcurrent
  · exact hqueue .ready hready
  · exact hqueue .wait hwait
  · exact hqueue .zombie hzombie
  · obtain ⟨task, hget, -, -⟩ := h.get?_current hcurrent
    exact mem_liveIds.2 ⟨task, mem_of_get? hget, id_of_get? hget⟩

theorem placed (h : s.Settled) : s.Placed where
  distinct := h.filed.linked.liveIds_nodup
  once task hmem := h.count_places (h.filed.linked.get?_of_mem hmem)
  live id hmem := h.live hmem
  queue_iff task hmem kind :=
    (h.filed.linked.mem_queue_iff (h.filed.linked.get?_of_mem hmem) kind).symm
  current_iff task hmem := h.current_iff (h.filed.linked.get?_of_mem hmem)
  state_of_queue task hmem kind hin :=
    h.filed.state_of_queue (h.filed.linked.get?_of_mem hmem)
      ((h.filed.linked.mem_queue_iff (h.filed.linked.get?_of_mem hmem) kind).1 hin)
  state_of_current task hmem hcurrent :=
    h.not_ready hcurrent (h.filed.linked.get?_of_mem hmem)
  running task hmem hrunning := by
    have hget := h.filed.linked.get?_of_mem hmem
    rw [← h.current_iff hget]
    cases hqueue : task.queue with
    | none => rfl
    | some kind =>
        -- No queue calls for a running task.
        have hstate := h.filed.state_of_queue hget hqueue
        rw [hrunning] at hstate
        cases kind <;> cases hstate

end Settled

/-! ## One request -/

/-- What a request may do to a settled scheduler. -/
structure Answered (s : Scheduler) (answer : Answer) (s' : Scheduler) : Prop where
  settled : s'.Settled
  agrees : ∀ id, answer.schedulerError? ≠ some (.invalidState id)
  numbered : answer.createdId? = none ∧ s'.store.nextId = s.store.nextId ∨
    answer.createdId? = some ⟨s.store.nextId⟩ ∧ s'.store.nextId = s.store.nextId + 1

namespace Answered

variable {s s' : Scheduler} {answer : Answer}

/-- A request that changed nothing. -/
theorem refused (h : s.Settled)
    (hagrees : ∀ id, answer.schedulerError? ≠ some (.invalidState id))
    (hid : answer.createdId? = none) : Answered s answer s :=
  ⟨h, hagrees, Or.inl ⟨hid, rfl⟩⟩

/-- A request that moved tasks and created none. -/
theorem moved (h : s'.Settled) (hnext : s'.store.nextId = s.store.nextId)
    (hagrees : ∀ id, answer.schedulerError? ≠ some (.invalidState id))
    (hid : answer.createdId? = none) : Answered s answer s' :=
  ⟨h, hagrees, Or.inl ⟨hid, hnext⟩⟩

end Answered

section

variable {F P S : Type} [FrameSource F] [Platform P] [ImageSource S] {s : Scheduler}

theorem Settled.answered (h : s.Settled) (mem : Memory F) (hw : P) (request : Request S)
    (hadmits : s.Admits request) :
    Answered s (s.answer mem hw request).1 (s.answer mem hw request).2.1 := by
  cases request with
  | init entry =>
      rcases init_settled h hadmits mem entry with
        ⟨e, mem', heq⟩ | ⟨s', mem', heq, hsettled, hnext⟩
      · simp only [answer, heq]
        exact .refused h (by simp [Answer.schedulerError?]) rfl
      · simp only [answer, heq]
        exact ⟨hsettled, by simp [Answer.schedulerError?], Or.inr ⟨rfl, hnext⟩⟩
  | create entry imageSize =>
      rcases createTask_settled h mem entry imageSize with
        ⟨e, mem', heq⟩ | ⟨s', mem', heq, hsettled, hnext, -, -⟩
      · simp only [answer, heq]
        exact .refused h (by simp [Answer.schedulerError?]) rfl
      · simp only [answer, heq]
        exact ⟨hsettled, by simp [Answer.schedulerError?], Or.inr ⟨rfl, hnext⟩⟩
  | prepare images name mode =>
      rcases prepare_settled h mem hw images name mode with
        ⟨e, mem', hw', heq, hsched⟩ | ⟨target, s', mem', hw', heq, htask, hsettled, hnext⟩
      · simp only [answer, heq]
        refine .refused h (fun id => ?_) rfl
        cases e with
        | scheduler e => exact absurd rfl (hsched e)
        | notFound | outOfMemory | task => simp [Answer.schedulerError?]
      · simp only [answer, heq]
        refine ⟨hsettled, by simp [Answer.schedulerError?], Or.inr ⟨?_, hnext⟩⟩
        rw [← htask]
        rfl
  | schedule =>
      obtain ⟨outcome, s', hw', heq, hsettled, hnext⟩ := schedule_settled h hw
      simp only [answer, heq]
      exact .moved hsettled hnext (by simp [Answer.schedulerError?]) rfl
  | tick =>
      obtain ⟨hsettled, hnext⟩ := tick_settled h
      simp only [answer]
      exact .moved hsettled hnext (by simp [Answer.schedulerError?]) rfl
  | terminate id =>
      rcases terminate_settled h id hw with heq | ⟨termination, s', hw', heq, hsettled, hnext⟩
      · simp only [answer, heq]
        exact .refused h (by simp [Answer.schedulerError?]) rfl
      · simp only [answer, heq]
        exact .moved hsettled hnext (by simp [Answer.schedulerError?]) rfl
  | exit =>
      rcases exit_settled h hw with heq | ⟨id, heq⟩ | ⟨outcome, s', hw', heq, hsettled, hnext⟩
      · simp only [answer, heq]
        exact .refused h (by simp [Answer.schedulerError?]) rfl
      · simp only [answer, heq]
        exact .refused h (by simp [Answer.schedulerError?]) rfl
      · simp only [answer, heq]
        exact .moved hsettled hnext (by simp [Answer.schedulerError?]) rfl
  | blockCurrent =>
      rcases blockCurrent_settled h hw with heq | ⟨outcome, s', hw', heq, hsettled, hnext⟩
      · simp only [answer, heq]
        exact .refused h (by simp [Answer.schedulerError?]) rfl
      · simp only [answer, heq]
        exact .moved hsettled hnext (by simp [Answer.schedulerError?]) rfl
  | wake id =>
      rcases wake_settled h id with heq | ⟨s', heq, hsettled, hnext⟩
      · simp only [answer, heq]
        exact .refused h (by simp [Answer.schedulerError?]) rfl
      · simp only [answer, heq]
        exact .moved hsettled hnext (by simp [Answer.schedulerError?]) rfl
  | adopt id mode =>
      rcases adopt_settled h id mode with heq | ⟨s', heq, hsettled, hnext⟩
      · simp only [answer, heq]
        exact .refused h (by simp [Answer.schedulerError?]) rfl
      · simp only [answer, heq]
        exact .moved hsettled hnext (by simp [Answer.schedulerError?]) rfl
  | reap =>
      obtain ⟨hsettled, hnext⟩ := reap_settled h mem
      simp only [answer]
      exact .moved hsettled hnext (by simp [Answer.schedulerError?]) rfl

end

end Scheduler

/-! ## Runs -/

section

variable {F P S : Type} [FrameSource F] [Platform P] [ImageSource S]

theorem Run.settled {log : List Answer} {s : Scheduler} (run : Run F P S log s) : s.Settled := by
  induction run with
  | nil => exact Scheduler.settled_empty
  | step run request mem hw hadmits ih => exact (ih.answered mem hw request hadmits).settled

/-- The numbers handed out in a run are those below the next one, in order. -/
theorem Run.createdIds {log : List Answer} {s : Scheduler} (run : Run F P S log s) :
    log.filterMap Answer.createdId? = (List.range s.store.nextId).map TaskId.mk := by
  induction run with
  | nil => rfl
  | step run request mem hw hadmits ih =>
      rw [List.filterMap_append, ih]
      rcases (run.settled.answered mem hw request hadmits).numbered with ⟨hid, hnext⟩ | ⟨hid, hnext⟩
      · rw [hnext, List.filterMap_cons_none hid, List.filterMap_nil, List.append_nil]
      · rw [hnext, List.filterMap_cons_some hid, List.filterMap_nil, List.range_succ,
          List.map_append, List.map_singleton]

theorem Run.agrees {log : List Answer} {s : Scheduler} (run : Run F P S log s) :
    ∀ answer ∈ log, ∀ id, answer.schedulerError? ≠ some (.invalidState id) := by
  induction run with
  | nil => exact fun answer hmem => absurd hmem List.not_mem_nil
  | step run request mem hw hadmits ih =>
      intro answer hmem
      rcases List.mem_append.1 hmem with hold | hnew
      · exact ih answer hold
      · rw [List.mem_singleton.1 hnew]
        exact (run.settled.answered mem hw request hadmits).agrees

/-- After every run each live task is in exactly one place, which its `queue` field and
    its state agree with; the numbers handed out are 0, 1, 2, .. in the order of creation,
    with no gap left by a creation that failed, and the live tasks are among them; and no
    answer reports a task whose state disagrees with the queues. -/
theorem placed_of_run {log : List Answer} {s : Scheduler} (run : Run F P S log s) :
    s.Placed ∧
    log.filterMap Answer.createdId? = (List.range s.store.nextId).map TaskId.mk ∧
    (∀ id ∈ s.store.liveIds, id ∈ log.filterMap Answer.createdId?) ∧
    ∀ answer ∈ log, ∀ id, answer.schedulerError? ≠ some (.invalidState id) := by
  refine ⟨run.settled.placed, run.createdIds, ?_, run.agrees⟩
  intro id hmem
  rw [run.createdIds, List.mem_map]
  exact ⟨id.val, List.mem_range.2 (run.settled.filed.linked.below id hmem), rfl⟩

end

/-- A run in which the idle task blocks and a second task takes over. -/
theorem placed_of_run_idle_blocked :
    ∃ log s, Run FramePool Recorder ImageTable log s ∧ s.current = some ⟨1⟩ ∧
      s.store.wait.ids = [⟨0⟩] ∧ s.Placed ∧ log.filterMap Answer.createdId? = [⟨0⟩, ⟨1⟩] := by
  let mem : Memory FramePool := ⟨.zero, .ofPages 16⟩
  have run := ((Run.nil.step (.init ⟨kernelBase⟩) mem Recorder.new rfl).step
    (.create ⟨kernelBase⟩ pageSize) mem Recorder.new trivial).step
    (.blockCurrent : Request ImageTable) mem Recorder.new trivial
  obtain ⟨hplaced, hids, -, -⟩ := placed_of_run run
  exact ⟨_, _, run, by decide +kernel, by decide +kernel, hplaced, hids.trans (by decide +kernel)⟩

end TaskKernel
