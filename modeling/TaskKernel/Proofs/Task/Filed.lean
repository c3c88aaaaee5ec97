/-
  TaskKernel.Proofs.Task.Filed

  A store is filed but for a set of loose tasks when it is linked, every queued task
  has the state of its queue, and the tasks in no queue are exactly the loose ones.
  The operations of a scheduler take a task out of a queue, change it and file it
  again; each lemma here says which tasks are loose afterwards. Loose tasks may have
  any state: what the running task may be doing is not the store's concern.
-/
import TaskKernel.Proofs.Task.Links
import Mathlib.Order.BooleanAlgebra.Set

namespace TaskKernel

/-- The state of the tasks in a queue. -/
def QueueKind.state : QueueKind → TaskState
  | ready => .ready
  | wait => .blocked
  | zombie => .exited

namespace TaskStore

/-- Every task but the loose ones is in the queue that its state calls for. -/
structure Filed (s : TaskStore) (loose : Set TaskId) : Prop where
  linked : s.Linked
  state_of_queue : ∀ {id task kind}, s.get? id = some task → task.queue = some kind →
    task.state = kind.state
  loose_iff : ∀ id, id ∈ loose ↔ ∃ task, s.get? id = some task ∧ task.queue = none

theorem filed_empty : Filed .empty ∅ where
  linked := linked_empty
  state_of_queue h := by simp [get?, empty] at h
  loose_iff id := by simp [get?, empty]

namespace Filed

variable {s : TaskStore} {loose : Set TaskId}

theorem get?_of_loose (h : s.Filed loose) {id : TaskId} (hid : id ∈ loose) :
    ∃ task, s.get? id = some task ∧ task.queue = none :=
  (h.loose_iff id).1 hid

/-- The tasks of a queue are live, name it and have its state. -/
theorem get?_of_mem (h : s.Filed loose) {kind : QueueKind} {id : TaskId}
    (hmem : id ∈ (s.queue kind).ids) :
    ∃ task, s.get? id = some task ∧ task.queue = some kind ∧ task.state = kind.state := by
  obtain ⟨task, hget, hqueue⟩ := (h.linked.mem_queue kind id).1 hmem
  exact ⟨task, hget, hqueue, h.state_of_queue hget hqueue⟩

theorem not_loose_of_mem (h : s.Filed loose) {kind : QueueKind} {id : TaskId}
    (hmem : id ∈ (s.queue kind).ids) : id ∉ loose := by
  intro hid
  obtain ⟨task, hget, hnone⟩ := h.get?_of_loose hid
  have hqueue := (h.linked.mem_queue_iff hget kind).1 hmem
  rw [hnone] at hqueue
  cases hqueue

/-- One task is replaced by a version of it that is in the right queue. -/
theorem replace_queued (h : s.Filed loose) {s' : TaskStore} (hlinked : s'.Linked) (id : TaskId)
    (task : Task) (hget : ∀ id', s'.get? id' = if id' = id then some task else s.get? id')
    {kind : QueueKind} (hqueue : task.queue = some kind) (hstate : task.state = kind.state) :
    s'.Filed (loose \ {id}) where
  linked := hlinked
  state_of_queue {id' found other} hfound hkind := by
    rw [hget id'] at hfound
    split at hfound
    · cases hfound
      rw [hqueue] at hkind
      cases hkind
      exact hstate
    · exact h.state_of_queue hfound hkind
  loose_iff id' := by
    rw [Set.mem_sdiff, Set.mem_singleton_iff, hget id', h.loose_iff id']
    by_cases heq : id' = id
    · simp [heq, hqueue]
    · simp [heq]

/-- One task is replaced by a version of it that is in no queue. -/
theorem replace_loose (h : s.Filed loose) {s' : TaskStore} (hlinked : s'.Linked) (id : TaskId)
    (task : Task) (hget : ∀ id', s'.get? id' = if id' = id then some task else s.get? id')
    (hqueue : task.queue = none) : s'.Filed (insert id loose) where
  linked := hlinked
  state_of_queue {id' found other} hfound hkind := by
    rw [hget id'] at hfound
    split at hfound
    · cases hfound
      rw [hqueue] at hkind
      cases hkind
    · exact h.state_of_queue hfound hkind
  loose_iff id' := by
    rw [Set.mem_insert_iff, hget id', h.loose_iff id']
    by_cases heq : id' = id
    · simp [heq, hqueue]
    · simp [heq]

/-! ## Filing -/

/-- A task gets a new state and goes from wherever it is to the queue of that state. -/
theorem setState_enqueue (h : s.Filed loose) (kind : QueueKind) {id : TaskId} {task : Task}
    (hget : s.get? id = some task) :
    ((s.setState id kind.state).enqueue kind id).2.Filed (loose \ {id}) := by
  have hget' := get?_setState_self hget kind.state
  refine h.replace_queued ((h.linked.setState id kind.state).enqueue kind hget') id
    { task with state := kind.state, queue := some kind } ?_ rfl rfl
  intro id'
  rw [get?_enqueue kind hget', get?_setState]
  by_cases heq : id' = id <;> simp [heq]

theorem enroll (h : s.Filed loose) {task : Task} (hid : task.id = ⟨s.nextId⟩)
    (hstate : task.state = .ready) (hqueue : task.queue = none) :
    ((s.enroll task).enqueue .ready ⟨s.nextId⟩).2.Filed loose := by
  have hget := get?_enroll_self h.linked hid
  -- The task is loose between the two steps only; its number was nobody's before.
  have hfresh : (⟨s.nextId⟩ : TaskId) ∉ loose := by
    intro hin
    obtain ⟨old, hold, -⟩ := h.get?_of_loose hin
    exact h.linked.get?_nextId old hold
  have hfiled := h.replace_queued ((h.linked.enroll hid hqueue).enqueue .ready hget) ⟨s.nextId⟩
    { task with queue := some .ready } ?_ rfl hstate
  · rwa [Set.sdiff_singleton_eq_self hfresh] at hfiled
  · intro id'
    rw [get?_enqueue .ready hget, get?_enroll h.linked hid]
    by_cases heq : id' = ⟨s.nextId⟩ <;> simp [heq]

/-! ## Taking out -/

theorem detach (h : s.Filed loose) {kind : QueueKind} {id : TaskId}
    (hmem : id ∈ (s.queue kind).ids) : (s.detach kind id).Filed (insert id loose) := by
  obtain ⟨task, hget, -, -⟩ := h.get?_of_mem hmem
  exact h.replace_loose (h.linked.detach hmem) id { task with queue := none }
    (get?_detach kind hget) rfl

theorem take (h : s.Filed loose) {id : TaskId} {task : Task} (hget : s.get? id = some task) :
    (s.take id).2.Filed (loose \ {id}) where
  linked := h.linked.take hget
  state_of_queue {id' found kind} hfound hkind := by
    rw [get?_take hget] at hfound
    split at hfound
    · cases hfound
    · exact h.state_of_queue hfound hkind
  loose_iff id' := by
    rw [Set.mem_sdiff, Set.mem_singleton_iff, get?_take hget, h.loose_iff id']
    by_cases heq : id' = id <;> simp [heq]

/-! ## Changing a task in place -/

/-- A change that keeps number, queue and state of a task keeps the store filed. -/
theorem modify (h : s.Filed loose) (id : TaskId) {f : Task → Task} (hid : ∀ t, (f t).id = t.id)
    (hqueue : ∀ t, (f t).queue = t.queue) (hstate : ∀ t, (f t).state = t.state) :
    (s.modify id f).Filed loose where
  linked := h.linked.modify id hid hqueue
  state_of_queue {id' found kind} hfound hkind := by
    rw [get?_modify s id id' hid] at hfound
    split at hfound
    · obtain ⟨task, hget, rfl⟩ := Option.map_eq_some_iff.1 hfound
      rw [hqueue] at hkind
      rw [hstate]
      exact h.state_of_queue hget hkind
    · exact h.state_of_queue hfound hkind
  loose_iff id' := by
    rw [get?_modify s id id' hid, h.loose_iff id']
    by_cases heq : id' = id
    · subst heq
      cases s.get? id' <;> simp [hqueue]
    · rw [if_neg heq]

/-- A loose task may get any state. -/
theorem setState (h : s.Filed loose) {id : TaskId} (hid : id ∈ loose) (state : TaskState) :
    (s.setState id state).Filed loose := by
  obtain ⟨task, hget, hqueue⟩ := h.get?_of_loose hid
  have hfiled := h.replace_loose (h.linked.setState id state) id { task with state } ?_ hqueue
  · rwa [Set.insert_eq_of_mem hid] at hfiled
  · intro id'
    rw [get?_setState]
    by_cases heq : id' = id <;> simp [heq, hget]

end Filed

end TaskStore
end TaskKernel
