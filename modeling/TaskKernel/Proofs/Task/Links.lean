/-
  TaskKernel.Proofs.Task.Links

  The agreement between the queues of a task store and the `queue` field of its
  tasks. `get?` is the view of the store: each operation is described by what
  `get?` finds afterwards (`get?_enqueue`, `get?_remove`, `get?_take`, ..), and
  `Linked` says that the queues hold exactly what the fields name, so that no proof
  about a scheduler has to look at the queues themselves. Every operation of the
  store keeps `Linked`, whatever its arguments.
-/
import TaskKernel.Task.Store
import Mathlib.Data.List.Nodup
import Mathlib.Data.List.Pairwise
import Mathlib.Tactic.Common

namespace TaskKernel
namespace TaskStore

/-! ## What `get?` finds -/

theorem id_of_get? {s : TaskStore} {id : TaskId} {task : Task} (h : s.get? id = some task) :
    task.id = id := by
  simpa using List.find?_some h

theorem mem_of_get? {s : TaskStore} {id : TaskId} {task : Task} (h : s.get? id = some task) :
    task ∈ s.tasks :=
  List.mem_of_find?_eq_some h

theorem get?_isSome_iff {s : TaskStore} {id : TaskId} :
    (s.get? id).isSome ↔ ∃ task ∈ s.tasks, task.id = id := by
  simp [get?, List.find?_isSome]

@[simp] theorem get?_setQueue (s : TaskStore) (kind : QueueKind) (q : TaskQueue) (id : TaskId) :
    (s.setQueue kind q).get? id = s.get? id := by
  cases kind <;> rfl

@[simp] theorem get?_unlink (s : TaskStore) (kind : Option QueueKind) (id id' : TaskId) :
    (s.unlink kind id).get? id' = s.get? id' := by
  cases kind with
  | none => rfl
  | some kind => exact get?_setQueue s kind _ id'

/-- A change that keeps numbers shows at its own number only. -/
theorem get?_modify (s : TaskStore) (id id' : TaskId) {f : Task → Task}
    (hf : ∀ t, (f t).id = t.id) :
    (s.modify id f).get? id' = if id' = id then (s.get? id').map f else s.get? id' := by
  -- The change keeps numbers, so the search stops at the same task as before.
  have hkeep : ((fun t : Task => t.id == id') ∘ fun t => if t.id == id then f t else t)
      = fun t => t.id == id' := by
    funext t
    by_cases ht : t.id = id
    · simp [ht, hf]
    · simp [ht]
  rw [get?, modify, List.find?_map, hkeep]
  show Option.map _ (s.get? id') = _
  cases hget : s.get? id' with
  | none => simp
  | some task =>
      have hid := id_of_get? hget
      by_cases h : id' = id
      · simp [h, hid]
      · simp [h, hid]

theorem get?_setState (s : TaskStore) (id id' : TaskId) (state : TaskState) :
    (s.setState id state).get? id' =
      if id' = id then (s.get? id').map (fun t => { t with state }) else s.get? id' :=
  get?_modify s id id' fun _ => rfl

theorem get?_setState_self {s : TaskStore} {id : TaskId} {task : Task}
    (hget : s.get? id = some task) (state : TaskState) :
    (s.setState id state).get? id = some { task with state } := by
  rw [get?_setState, if_pos rfl, hget]
  rfl

theorem get?_setQueueOf (s : TaskStore) (id id' : TaskId) (queue : Option QueueKind) :
    (s.setQueueOf id queue).get? id' =
      if id' = id then (s.get? id').map (fun t => { t with queue }) else s.get? id' :=
  get?_modify s id id' fun _ => rfl

/-! ## What the queues hold -/

@[simp] theorem queue_setQueue_self (s : TaskStore) (kind : QueueKind) (q : TaskQueue) :
    (s.setQueue kind q).queue kind = q := by
  cases kind <;> rfl

theorem queue_setQueue_of_ne (s : TaskStore) {kind kind' : QueueKind} (q : TaskQueue)
    (h : kind' ≠ kind) : (s.setQueue kind q).queue kind' = s.queue kind' := by
  cases kind <;> cases kind' <;> first | rfl | exact absurd rfl h

@[simp] theorem queue_modify (s : TaskStore) (id : TaskId) (f : Task → Task) (kind : QueueKind) :
    (s.modify id f).queue kind = s.queue kind := by
  cases kind <;> rfl

@[simp] theorem queue_setQueueOf (s : TaskStore) (id : TaskId) (queue : Option QueueKind)
    (kind : QueueKind) : (s.setQueueOf id queue).queue kind = s.queue kind :=
  queue_modify s id _ kind

/-! ## Numbers of the live tasks -/

/-- Numbers of the live tasks, oldest first. -/
def liveIds (s : TaskStore) : List TaskId := s.tasks.map (·.id)

theorem mem_liveIds {s : TaskStore} {id : TaskId} :
    id ∈ s.liveIds ↔ ∃ task ∈ s.tasks, task.id = id := List.mem_map

theorem liveIds_modify (s : TaskStore) (id : TaskId) {f : Task → Task}
    (hf : ∀ t, (f t).id = t.id) : (s.modify id f).liveIds = s.liveIds := by
  rw [liveIds, modify, List.map_map]
  refine List.map_congr_left fun t _ => ?_
  by_cases h : t.id = id <;> simp [h, hf]

@[simp] theorem liveIds_setQueueOf (s : TaskStore) (id : TaskId) (queue : Option QueueKind) :
    (s.setQueueOf id queue).liveIds = s.liveIds :=
  liveIds_modify s id fun _ => rfl

@[simp] theorem liveIds_setQueue (s : TaskStore) (kind : QueueKind) (q : TaskQueue) :
    (s.setQueue kind q).liveIds = s.liveIds := by
  cases kind <;> rfl

@[simp] theorem nextId_setQueue (s : TaskStore) (kind : QueueKind) (q : TaskQueue) :
    (s.setQueue kind q).nextId = s.nextId := by
  cases kind <;> rfl

@[simp] theorem nextId_setQueueOf (s : TaskStore) (id : TaskId) (queue : Option QueueKind) :
    (s.setQueueOf id queue).nextId = s.nextId := rfl

/-! ## Linked stores -/

/-- The queues hold exactly the tasks whose field names them, once each. Live tasks
    stand in the order of their numbers, all below the next one. -/
structure Linked (s : TaskStore) : Prop where
  increasing : s.liveIds.Pairwise (·.val < ·.val)
  below : ∀ id ∈ s.liveIds, id.val < s.nextId
  queue_nodup : ∀ kind, (s.queue kind).ids.Nodup
  mem_queue : ∀ kind id,
    id ∈ (s.queue kind).ids ↔ ∃ task, s.get? id = some task ∧ task.queue = some kind

theorem linked_empty : Linked .empty where
  increasing := List.Pairwise.nil
  below := by intro id h; exact absurd h List.not_mem_nil
  queue_nodup kind := by cases kind <;> exact List.nodup_nil
  mem_queue kind id := by cases kind <;> simp [empty, get?, queue, TaskQueue.empty]

namespace Linked

variable {s : TaskStore}

theorem liveIds_nodup (h : s.Linked) : s.liveIds.Nodup :=
  h.increasing.imp fun hlt heq => by rw [heq] at hlt; exact Nat.lt_irrefl _ hlt

/-- Each live task is the one its number finds. -/
theorem get?_of_mem (h : s.Linked) {task : Task} (hmem : task ∈ s.tasks) :
    s.get? task.id = some task := by
  obtain ⟨found, hfound⟩ := Option.isSome_iff_exists.1
    (get?_isSome_iff.2 ⟨task, hmem, rfl⟩ : (s.get? task.id).isSome)
  have heq := List.inj_on_of_nodup_map h.liveIds_nodup (mem_of_get? hfound) hmem
    (id_of_get? hfound)
  rw [hfound, heq]

/-- The next number is nobody's yet. -/
theorem get?_nextId (h : s.Linked) (task : Task) : s.get? ⟨s.nextId⟩ ≠ some task := by
  intro hget
  have hlt := h.below task.id (mem_liveIds.2 ⟨task, mem_of_get? hget, rfl⟩)
  rw [id_of_get? hget] at hlt
  exact Nat.lt_irrefl _ hlt

/-- A live task is in the queue its field names and in no other. -/
theorem mem_queue_iff (h : s.Linked) {id : TaskId} {task : Task} (hget : s.get? id = some task)
    (kind : QueueKind) : id ∈ (s.queue kind).ids ↔ task.queue = some kind := by
  rw [h.mem_queue kind id]
  constructor
  · rintro ⟨found, hfound, hqueue⟩
    rw [hget, Option.some_inj] at hfound
    rw [hfound]
    exact hqueue
  · intro hqueue
    exact ⟨task, hget, hqueue⟩

theorem notMem_of_get?_none (h : s.Linked) {id : TaskId} (hget : s.get? id = none)
    (kind : QueueKind) : id ∉ (s.queue kind).ids := by
  intro hmem
  obtain ⟨task, hfound, -⟩ := (h.mem_queue kind id).1 hmem
  cases hget.symm.trans hfound

theorem nextId_not_mem (h : s.Linked) (kind : QueueKind) :
    (⟨s.nextId⟩ : TaskId) ∉ (s.queue kind).ids :=
  h.notMem_of_get?_none (Option.eq_none_iff_forall_ne_some.2 h.get?_nextId) kind

/-- A search goes by what the task says of its queue, and that agrees with the queues. -/
theorem isSome_findQueued?_iff (h : s.Linked) (id : TaskId) :
    (s.findQueued? id).isSome = true ↔ id ∈ s.ready.ids ∨ id ∈ s.wait.ids := by
  have hready : id ∈ s.ready.ids ↔ _ := h.mem_queue .ready id
  have hwait : id ∈ s.wait.ids ↔ _ := h.mem_queue .wait id
  rw [hready, hwait, findQueued?]
  cases s.get? id with
  | none => simp
  | some task => simp

/-- A change that keeps the number and the queue of every task keeps the links. -/
theorem modify (h : s.Linked) (id : TaskId) {f : Task → Task} (hid : ∀ t, (f t).id = t.id)
    (hqueue : ∀ t, (f t).queue = t.queue) : (s.modify id f).Linked where
  increasing := by
    rw [liveIds_modify s id hid]
    exact h.increasing
  below := by
    rw [liveIds_modify s id hid]
    exact h.below
  queue_nodup kind := by
    rw [queue_modify]
    exact h.queue_nodup kind
  mem_queue kind id' := by
    rw [queue_modify, h.mem_queue kind id', get?_modify s id id' hid]
    by_cases heq : id' = id
    · simp only [heq, if_true, Option.map_eq_some_iff]
      constructor
      · rintro ⟨task, hget, hkind⟩
        exact ⟨f task, ⟨task, hget, rfl⟩, (hqueue task).trans hkind⟩
      · rintro ⟨_, ⟨task, hget, rfl⟩, hkind⟩
        exact ⟨task, hget, (hqueue task).symm.trans hkind⟩
    · simp only [if_neg heq]

theorem setState (h : s.Linked) (id : TaskId) (state : TaskState) : (s.setState id state).Linked :=
  h.modify id (fun _ => rfl) fun _ => rfl

/-- Two stores with the same tasks, one of which names another queue in the second
    store and stands in that queue there: the links carry over. -/
theorem relink {s' : TaskStore} (h : s.Linked) {id : TaskId} {task : Task}
    (queue : Option QueueKind) (hids : s'.liveIds = s.liveIds) (hnext : s'.nextId = s.nextId)
    (hnodup : ∀ kind, (s'.queue kind).ids.Nodup)
    (hget : ∀ id', s'.get? id' = if id' = id then some { task with queue } else s.get? id')
    (hmem : ∀ kind id', id' ∈ (s'.queue kind).ids ↔
      if id' = id then queue = some kind else id' ∈ (s.queue kind).ids) : s'.Linked where
  increasing := by
    rw [hids]
    exact h.increasing
  below := by
    rw [hids, hnext]
    exact h.below
  queue_nodup := hnodup
  mem_queue kind id' := by
    rw [hmem kind id', hget id']
    by_cases heq : id' = id
    · simp [heq]
    · rw [if_neg heq, if_neg heq]
      exact h.mem_queue kind id'

/-! ## Leaving a queue -/

theorem nodup_unlink (h : s.Linked) (queue : Option QueueKind) (id : TaskId) (kind : QueueKind) :
    ((s.unlink queue id).queue kind).ids.Nodup := by
  cases queue with
  | none => exact h.queue_nodup kind
  | some left =>
      rw [unlink]
      by_cases heq : kind = left
      · subst heq
        rw [queue_setQueue_self]
        exact (h.queue_nodup kind).erase id
      · rw [queue_setQueue_of_ne s _ heq]
        exact h.queue_nodup kind

/-- Unlinking a task from the queue its field names takes it out of every queue. -/
theorem mem_queue_unlink (h : s.Linked) {id : TaskId} {task : Task}
    (hget : s.get? id = some task) (kind : QueueKind) (id' : TaskId) :
    id' ∈ ((s.unlink task.queue id).queue kind).ids ↔ id' ≠ id ∧ id' ∈ (s.queue kind).ids := by
  -- The task is in the queue that it names and nowhere else.
  have hout : ∀ other, task.queue ≠ some other → id ∉ (s.queue other).ids := fun other hne hin =>
    hne ((h.mem_queue_iff hget other).1 hin)
  cases hqueue : task.queue with
  | none =>
      show id' ∈ (s.queue kind).ids ↔ _
      refine ⟨fun hin => ⟨?_, hin⟩, And.right⟩
      rintro rfl
      exact hout kind (by rw [hqueue]; simp) hin
  | some left =>
      rw [unlink]
      by_cases heq : kind = left
      · subst heq
        rw [queue_setQueue_self]
        exact (h.queue_nodup kind).mem_erase_iff
      · rw [queue_setQueue_of_ne s _ heq]
        refine ⟨fun hin => ⟨?_, hin⟩, And.right⟩
        rintro rfl
        exact hout kind (by rw [hqueue]; simpa using Ne.symm heq) hin

end Linked

@[simp] theorem liveIds_unlink (s : TaskStore) (queue : Option QueueKind) (id : TaskId) :
    (s.unlink queue id).liveIds = s.liveIds := by
  cases queue with
  | none => rfl
  | some kind => exact liveIds_setQueue s kind _

@[simp] theorem tasks_unlink (s : TaskStore) (queue : Option QueueKind) (id : TaskId) :
    (s.unlink queue id).tasks = s.tasks := by
  cases queue with
  | none => rfl
  | some kind => cases kind <;> rfl

@[simp] theorem nextId_unlink (s : TaskStore) (queue : Option QueueKind) (id : TaskId) :
    (s.unlink queue id).nextId = s.nextId := by
  cases queue with
  | none => rfl
  | some kind => exact nextId_setQueue s kind _

/-- The store with a task out of the queue `kind` and marked so. -/
def detach (s : TaskStore) (kind : QueueKind) (id : TaskId) : TaskStore :=
  (s.unlink (some kind) id).setQueueOf id none

theorem remove_of_mem {s : TaskStore} {kind : QueueKind} {id : TaskId}
    (h : id ∈ (s.queue kind).ids) : s.remove kind id = (true, s.detach kind id) := by
  have hin : (s.queue kind).contains id = true := by simpa [TaskQueue.contains] using h
  rw [remove, if_pos hin]
  rfl

theorem remove_of_not_mem {s : TaskStore} {kind : QueueKind} {id : TaskId}
    (h : id ∉ (s.queue kind).ids) : s.remove kind id = (false, s) := by
  have hout : ¬ (s.queue kind).contains id = true := by simpa [TaskQueue.contains] using h
  rw [remove, if_neg hout]

theorem mem_of_front? {q : TaskQueue} {id : TaskId} (h : q.front? = some id) : id ∈ q.ids :=
  List.mem_of_head? h

/-- Taking the head of a queue is taking that task out of it. -/
theorem dequeue_of_front? {s : TaskStore} {kind : QueueKind} {id : TaskId}
    (h : (s.queue kind).front? = some id) : s.dequeue kind = (some id, s.detach kind id) := by
  obtain ⟨rest, hrest⟩ : ∃ rest, (s.queue kind).ids = id :: rest := List.head?_eq_some_iff.1 h
  simp only [dequeue, detach, unlink, TaskQueue.pop, TaskQueue.erase, hrest, List.head?_cons,
    List.tail_cons, List.erase_cons_head]

theorem dequeue_of_empty {s : TaskStore} {kind : QueueKind}
    (h : (s.queue kind).front? = none) : s.dequeue kind = (none, s) := by
  have hempty : (s.queue kind).ids.head? = none := h
  simp only [dequeue, TaskQueue.pop, hempty]

@[simp] theorem nextId_detach (s : TaskStore) (kind : QueueKind) (id : TaskId) :
    (s.detach kind id).nextId = s.nextId :=
  nextId_unlink s (some kind) id

theorem get?_detach {s : TaskStore} (kind : QueueKind) {id : TaskId} {task : Task}
    (hget : s.get? id = some task) (id' : TaskId) :
    (s.detach kind id).get? id' =
      if id' = id then some { task with queue := none } else s.get? id' := by
  rw [detach, get?_setQueueOf, get?_unlink]
  by_cases heq : id' = id
  · simp [heq, hget]
  · rw [if_neg heq, if_neg heq]

theorem get?_detach_self {s : TaskStore} (kind : QueueKind) {id : TaskId} {task : Task}
    (hget : s.get? id = some task) :
    (s.detach kind id).get? id = some { task with queue := none } := by
  rw [get?_detach kind hget, if_pos rfl]

theorem Linked.detach {s : TaskStore} (h : s.Linked) {kind : QueueKind} {id : TaskId}
    (hmem : id ∈ (s.queue kind).ids) : (s.detach kind id).Linked := by
  obtain ⟨task, hget, hqueue⟩ := (h.mem_queue kind id).1 hmem
  refine h.relink none ?_ (nextId_detach s kind id) ?_ (get?_detach kind hget) ?_
  · rw [TaskStore.detach, liveIds_setQueueOf, liveIds_unlink]
  · intro other
    rw [TaskStore.detach, queue_setQueueOf]
    exact h.nodup_unlink _ id other
  · intro other id'
    rw [TaskStore.detach, queue_setQueueOf, ← hqueue, h.mem_queue_unlink hget]
    by_cases heq : id' = id <;> simp [heq]

/-! ## Entering a queue -/

@[simp] theorem nextId_enqueue (s : TaskStore) (kind : QueueKind) (id : TaskId) :
    (s.enqueue kind id).2.nextId = s.nextId := by
  rw [enqueue]
  cases s.get? id with
  | none => rfl
  | some task => simp

theorem get?_enqueue {s : TaskStore} (kind : QueueKind) {id : TaskId} {task : Task}
    (hget : s.get? id = some task) (id' : TaskId) :
    (s.enqueue kind id).2.get? id' =
      if id' = id then some { task with queue := some kind } else s.get? id' := by
  simp only [enqueue, hget, get?_setQueueOf, get?_setQueue, get?_unlink]
  by_cases heq : id' = id
  · simp [heq, hget]
  · rw [if_neg heq, if_neg heq]

theorem get?_enqueue_self {s : TaskStore} (kind : QueueKind) {id : TaskId} {task : Task}
    (hget : s.get? id = some task) :
    (s.enqueue kind id).2.get? id = some { task with queue := some kind } := by
  rw [get?_enqueue kind hget, if_pos rfl]

theorem Linked.enqueue {s : TaskStore} (h : s.Linked) (kind : QueueKind) {id : TaskId}
    {task : Task} (hget : s.get? id = some task) : (s.enqueue kind id).2.Linked := by
  -- The queue entered has the task at its tail; every other queue has at most lost it.
  have hqueue : ∀ other, ((s.enqueue kind id).2.queue other).ids =
      if other = kind then ((s.unlink task.queue id).queue kind).ids ++ [id]
      else ((s.unlink task.queue id).queue other).ids := by
    intro other
    simp only [TaskStore.enqueue, hget, queue_setQueueOf]
    by_cases heq : other = kind
    · subst heq
      rw [queue_setQueue_self, if_pos rfl, TaskQueue.push]
    · rw [queue_setQueue_of_ne _ _ heq, if_neg heq]
  have hout : ∀ other, id ∉ ((s.unlink task.queue id).queue other).ids := fun other hin =>
    ((h.mem_queue_unlink hget other id).1 hin).1 rfl
  refine h.relink (some kind) ?_ (nextId_enqueue s kind id) ?_ (get?_enqueue kind hget) ?_
  · simp only [TaskStore.enqueue, hget, liveIds_setQueueOf, liveIds_setQueue, liveIds_unlink]
  · intro other
    rw [hqueue other]
    split
    · refine List.Nodup.append (h.nodup_unlink _ id kind) (List.nodup_singleton id) ?_
      exact List.disjoint_singleton.2 (hout kind)
    · exact h.nodup_unlink _ id other
  · intro other id'
    rw [hqueue other]
    by_cases hother : other = kind
    · subst hother
      rw [if_pos rfl, List.mem_append, List.mem_singleton, h.mem_queue_unlink hget]
      by_cases heq : id' = id <;> simp [heq]
    · rw [if_neg hother, h.mem_queue_unlink hget]
      by_cases heq : id' = id
      · simp [heq, Ne.symm hother]
      · simp [heq]

/-! ## Leaving the store -/

theorem get?_take {s : TaskStore} {id : TaskId} {task : Task} (hget : s.get? id = some task)
    (id' : TaskId) : (s.take id).2.get? id' = if id' = id then none else s.get? id' := by
  simp only [take, hget, tasks_unlink]
  show (s.tasks.filter (·.id != id)).find? (·.id == id') = _
  -- Searching those who stay is searching all of them, unless the one who left is sought.
  rw [List.find?_filter]
  by_cases heq : id' = id
  · rw [if_pos heq, List.find?_eq_none]
    intro t _
    simp [heq]
  · have hsame : (fun t : Task => decide ((t.id != id) = true ∧ (t.id == id') = true))
        = fun t => t.id == id' := by
      funext t
      by_cases ht : t.id = id'
      · simp [ht, heq]
      · simp [ht]
    rw [if_neg heq, hsame]
    rfl

@[simp] theorem nextId_take (s : TaskStore) (id : TaskId) : (s.take id).2.nextId = s.nextId := by
  rw [take]
  cases s.get? id with
  | none => rfl
  | some task => exact nextId_unlink s task.queue id

/-- The task that leaves is the one that was found. -/
theorem take_of_get? {s : TaskStore} {id : TaskId} {task : Task} (hget : s.get? id = some task) :
    s.take id = (some task, (s.take id).2) := by
  simp only [take, hget]

theorem Linked.take {s : TaskStore} (h : s.Linked) {id : TaskId} {task : Task}
    (hget : s.get? id = some task) : (s.take id).2.Linked := by
  -- Tasks only leave, so order and bound carry over to what remains.
  have hids : (s.take id).2.liveIds.Sublist s.liveIds := by
    simp only [TaskStore.take, hget, tasks_unlink]
    exact (List.filter_sublist).map _
  have hqueue : ∀ kind, (s.take id).2.queue kind = (s.unlink task.queue id).queue kind := by
    intro kind
    simp only [TaskStore.take, hget]
    cases kind <;> rfl
  refine ⟨h.increasing.sublist hids, ?_, ?_, ?_⟩
  · intro id' hin
    rw [nextId_take]
    exact h.below id' (hids.subset hin)
  · intro kind
    rw [hqueue kind]
    exact h.nodup_unlink _ id kind
  · intro kind id'
    rw [hqueue kind, h.mem_queue_unlink hget, get?_take hget, h.mem_queue kind id']
    by_cases heq : id' = id <;> simp [heq]

/-- The store without a zombie: off its queue, then out of the store. -/
def bury (s : TaskStore) (id : TaskId) : TaskStore := ((s.detach .zombie id).take id).2

@[simp] theorem nextId_bury (s : TaskStore) (id : TaskId) : (s.bury id).nextId = s.nextId := by
  rw [bury, nextId_take, nextId_detach]

theorem get?_bury {s : TaskStore} {id : TaskId} {task : Task} (hget : s.get? id = some task)
    (id' : TaskId) : (s.bury id).get? id' = if id' = id then none else s.get? id' := by
  rw [bury, get?_take (get?_detach_self .zombie hget), get?_detach .zombie hget]
  by_cases heq : id' = id <;> simp [heq]

theorem Linked.bury {s : TaskStore} (h : s.Linked) {id : TaskId}
    (hmem : id ∈ (s.queue .zombie).ids) : (s.bury id).Linked := by
  obtain ⟨task, hget, -⟩ := (h.mem_queue .zombie id).1 hmem
  exact (h.detach hmem).take (get?_detach_self .zombie hget)

/-! ## Entering the store -/

/-- The store with a fresh task, which is in no queue yet. -/
def enroll (s : TaskStore) (task : Task) : TaskStore :=
  { s with tasks := s.tasks ++ [task], nextId := s.nextId + 1 }

theorem get?_enroll {s : TaskStore} (h : s.Linked) {task : Task} (hid : task.id = ⟨s.nextId⟩)
    (id' : TaskId) :
    (s.enroll task).get? id' = if id' = ⟨s.nextId⟩ then some task else s.get? id' := by
  show (s.tasks ++ [task]).find? (·.id == id') = _
  rw [List.find?_append]
  by_cases heq : id' = ⟨s.nextId⟩
  · have hnone : s.get? id' = none := by
      rw [← Option.not_isSome_iff_eq_none, get?_isSome_iff]
      rintro ⟨t, ht, hti⟩
      have := h.below t.id (mem_liveIds.2 ⟨t, ht, rfl⟩)
      rw [hti, heq] at this
      exact Nat.lt_irrefl _ this
    show (s.get? id').or _ = _
    rw [hnone, if_pos heq, Option.none_or]
    simp [hid, heq]
  · have hskip : [task].find? (·.id == id') = none := by simp [hid, Ne.symm heq]
    rw [hskip, Option.or_none, if_neg heq]
    rfl

theorem get?_enroll_self {s : TaskStore} (h : s.Linked) {task : Task}
    (hid : task.id = ⟨s.nextId⟩) : (s.enroll task).get? ⟨s.nextId⟩ = some task := by
  rw [get?_enroll h hid, if_pos rfl]

theorem Linked.enroll {s : TaskStore} (h : s.Linked) {task : Task} (hid : task.id = ⟨s.nextId⟩)
    (hqueue : task.queue = none) : (s.enroll task).Linked := by
  have hids : (s.enroll task).liveIds = s.liveIds ++ [⟨s.nextId⟩] := by
    rw [liveIds, TaskStore.enroll, List.map_append, List.map_singleton, hid]
    rfl
  have hkeep : ∀ kind, (s.enroll task).queue kind = s.queue kind := fun kind => by cases kind <;> rfl
  -- The number is above all others: the task goes last and no queue can hold it yet.
  refine ⟨?_, ?_, ?_, ?_⟩
  · rw [hids, List.pairwise_append]
    refine ⟨h.increasing, List.pairwise_singleton _ _, ?_⟩
    intro id hin id' hin'
    rw [List.mem_singleton] at hin'
    rw [hin']
    exact h.below id hin
  · intro id hin
    rw [hids, List.mem_append, List.mem_singleton] at hin
    show id.val < s.nextId + 1
    rcases hin with hin | rfl
    · exact Nat.lt_succ_of_lt (h.below id hin)
    · exact Nat.lt_succ_self _
  · intro kind
    rw [hkeep kind]
    exact h.queue_nodup kind
  · intro kind id
    rw [hkeep kind, get?_enroll h hid, h.mem_queue kind id]
    by_cases heq : id = ⟨s.nextId⟩
    · rw [if_pos heq, ← h.mem_queue kind id, heq]
      simp [h.nextId_not_mem kind, hqueue]
    · rw [if_neg heq]

/-! ## Queues after each operation -/

section

variable {s : TaskStore} {id : TaskId} {task : Task}

/-- Unlinking a task from the queue that its field names erases it everywhere. -/
theorem Linked.ids_unlink (h : s.Linked) (hget : s.get? id = some task) (kind : QueueKind) :
    ((s.unlink task.queue id).queue kind).ids = (s.queue kind).ids.erase id := by
  have hout : task.queue ≠ some kind → (s.queue kind).ids.erase id = (s.queue kind).ids :=
    fun hne => List.erase_of_not_mem fun hmem => hne ((h.mem_queue_iff hget kind).1 hmem)
  cases hqueue : task.queue with
  | none => rw [hout (by simp [hqueue])]; rfl
  | some left =>
      rw [unlink]
      by_cases heq : kind = left
      · rw [heq, queue_setQueue_self]
        rfl
      · rw [queue_setQueue_of_ne s _ heq, hout (by simpa [hqueue] using Ne.symm heq)]

theorem Linked.ids_enqueue (h : s.Linked) (hget : s.get? id = some task) (kind kind' : QueueKind) :
    ((s.enqueue kind id).2.queue kind').ids =
      (s.queue kind').ids.erase id ++ if kind' = kind then [id] else [] := by
  simp only [TaskStore.enqueue, hget, queue_setQueueOf]
  by_cases heq : kind' = kind
  · rw [heq, queue_setQueue_self, if_pos rfl, ← h.ids_unlink hget]
    rfl
  · rw [queue_setQueue_of_ne _ _ heq, if_neg heq, List.append_nil, h.ids_unlink hget]

@[simp] theorem queue_setState (s : TaskStore) (id : TaskId) (state : TaskState)
    (kind : QueueKind) : (s.setState id state).queue kind = s.queue kind :=
  queue_modify s id _ kind

theorem ids_detach (s : TaskStore) (kind kind' : QueueKind) (id : TaskId) :
    ((s.detach kind id).queue kind').ids =
      if kind' = kind then (s.queue kind').ids.erase id else (s.queue kind').ids := by
  rw [detach, queue_setQueueOf, unlink]
  by_cases heq : kind' = kind
  · rw [heq, queue_setQueue_self, if_pos rfl]
    rfl
  · rw [queue_setQueue_of_ne s _ heq, if_neg heq]

theorem Linked.ids_take (h : s.Linked) (hget : s.get? id = some task) (kind : QueueKind) :
    ((s.take id).2.queue kind).ids = (s.queue kind).ids.erase id := by
  rw [← h.ids_unlink hget kind]
  simp only [TaskStore.take, hget]
  cases kind <;> rfl

/-- A zombie that is buried leaves the queues as any task that is taken does. -/
theorem Linked.ids_bury (h : s.Linked) (hmem : id ∈ (s.queue .zombie).ids) (kind : QueueKind) :
    ((s.bury id).queue kind).ids = (s.queue kind).ids.erase id := by
  obtain ⟨task, hget, -⟩ := (h.mem_queue .zombie id).1 hmem
  rw [TaskStore.bury, (h.detach hmem).ids_take (get?_detach_self .zombie hget), ids_detach]
  split
  · next heq =>
      rw [heq]
      exact List.erase_of_not_mem (h.queue_nodup .zombie).not_mem_erase
  · rfl

@[simp] theorem queue_enroll (s : TaskStore) (task : Task) (kind : QueueKind) :
    (s.enroll task).queue kind = s.queue kind := by
  cases kind <;> rfl

/-- A fresh task goes behind everyone on the ready queue. -/
theorem Linked.ids_enlisted (h : s.Linked) (hid : task.id = ⟨s.nextId⟩) (hqueue : task.queue = none)
    (kind : QueueKind) : (((s.enroll task).enqueue .ready ⟨s.nextId⟩).2.queue kind).ids =
      (s.queue kind).ids ++ if kind = .ready then [⟨s.nextId⟩] else [] := by
  rw [(h.enroll hid hqueue).ids_enqueue (get?_enroll_self h hid), queue_enroll,
    List.erase_of_not_mem (h.nextId_not_mem kind)]

end

end TaskStore

/-! ## Creation -/

/-- A task that was built bears the number it was built for, is ready and in no queue. -/
theorem Task.fresh_of_build {F : Type} [FrameSource F] {mem mem' : Memory F} {id : TaskId}
    {entry : VirtAddr} {imageSize : Nat} {task : Task}
    (h : Task.build mem id entry imageSize = (.ok task, mem')) :
    task.id = id ∧ task.state = .ready ∧ task.queue = none := by
  -- Every way out of the construction but the last is an error.
  unfold Task.build at h
  split at h
  · exact absurd h (by simp)
  · dsimp only at h
    split at h
    · exact absurd h (by simp)
    · split at h
      · exact absurd h (by simp)
      · simp only [Prod.mk.injEq, Except.ok.injEq] at h
        obtain ⟨rfl, -⟩ := h
        exact ⟨rfl, rfl, rfl⟩

namespace TaskStore

variable {F : Type} [FrameSource F]

theorem create_of_ok {store : TaskStore} {mem mem' : Memory F} {entry : VirtAddr} {imageSize : Nat}
    {task : Task} (h : Task.build mem ⟨store.nextId⟩ entry imageSize = (.ok task, mem')) :
    store.create mem entry imageSize =
      (.ok ⟨store.nextId⟩, ((store.enroll task).enqueue .ready ⟨store.nextId⟩).2, mem') := by
  simp only [create, h]
  rfl

theorem create_of_error {store : TaskStore} {mem mem' : Memory F} {entry : VirtAddr}
    {imageSize : Nat} {e : TaskError}
    (h : Task.build mem ⟨store.nextId⟩ entry imageSize = (.error e, mem')) :
    store.create mem entry imageSize = (.error e, store, mem') := by
  simp only [create, h]

/-- Creating a task either fails without a trace in the store, or takes a fresh task in
    under the next number and puts it at the tail of the ready queue. -/
theorem create_cases (s : TaskStore) (mem : Memory F) (entry : VirtAddr) (imageSize : Nat) :
    (∃ e mem', s.create mem entry imageSize = (.error e, s, mem')) ∨
    (∃ task mem', task.id = ⟨s.nextId⟩ ∧ task.state = .ready ∧ task.queue = none ∧
      s.create mem entry imageSize =
        (.ok ⟨s.nextId⟩, ((s.enroll task).enqueue .ready ⟨s.nextId⟩).2, mem')) := by
  rcases hbuild : Task.build mem ⟨s.nextId⟩ entry imageSize with ⟨result, mem'⟩
  cases result with
  | error e => exact Or.inl ⟨e, mem', create_of_error hbuild⟩
  | ok task =>
      obtain ⟨hid, hstate, hqueue⟩ := Task.fresh_of_build hbuild
      exact Or.inr ⟨task, mem', hid, hstate, hqueue, create_of_ok hbuild⟩

end TaskStore
end TaskKernel
