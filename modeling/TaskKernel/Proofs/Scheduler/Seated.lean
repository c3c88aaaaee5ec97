/-
  TaskKernel.Proofs.Scheduler.Seated

  The part of the scheduler's invariant that holds also where the idle task is created while
  another task runs: that task is then in no queue and not running either, so the store is
  not filed any more. What is left is enough for the tasks' memory: the running task is
  live, in no queue and not ready, so it can always be filed, and nobody reaps it. Requests
  that neither create nor reap leave what the tasks hold as it was.
-/
import TaskKernel.Proofs.Scheduler.Settled
import TaskKernel.Proofs.Task.Footprint

namespace TaskKernel

/-! ## What the tasks of a store hold -/

namespace TaskStore

/-- What the live tasks hold, oldest task first. -/
def holdings (s : TaskStore) : List Holding := s.tasks.map Task.holding

theorem holdings_modify (s : TaskStore) (id : TaskId) {f : Task → Task}
    (hf : ∀ t ∈ s.tasks, t.id = id → (f t).holding = t.holding) :
    (s.modify id f).holdings = s.holdings := by
  rw [holdings, modify, List.map_map]
  refine List.map_congr_left fun t ht => ?_
  by_cases h : t.id = id
  · simp [h, hf t ht h]
  · simp [h]

@[simp] theorem holdings_setState (s : TaskStore) (id : TaskId) (state : TaskState) :
    (s.setState id state).holdings = s.holdings :=
  holdings_modify s id fun _ _ _ => rfl

@[simp] theorem holdings_setQueueOf (s : TaskStore) (id : TaskId) (queue : Option QueueKind) :
    (s.setQueueOf id queue).holdings = s.holdings :=
  holdings_modify s id fun _ _ _ => rfl

@[simp] theorem holdings_unlink (s : TaskStore) (queue : Option QueueKind) (id : TaskId) :
    (s.unlink queue id).holdings = s.holdings := by
  rw [holdings, tasks_unlink, holdings]

@[simp] theorem holdings_enqueue (s : TaskStore) (kind : QueueKind) (id : TaskId) :
    (s.enqueue kind id).2.holdings = s.holdings := by
  have hqueue (s : TaskStore) (q : TaskQueue) : (s.setQueue kind q).holdings = s.holdings := by
    cases kind <;> rfl
  rw [enqueue]
  cases s.get? id with
  | none => rfl
  | some task =>
      dsimp only
      rw [holdings_setQueueOf, hqueue, holdings_unlink]

@[simp] theorem holdings_detach (s : TaskStore) (kind : QueueKind) (id : TaskId) :
    (s.detach kind id).holdings = s.holdings := by
  rw [detach, holdings_setQueueOf, holdings_unlink]

@[simp] theorem holdings_dispatch (s : TaskStore) (id : TaskId) :
    (s.dispatch id).holdings = s.holdings := by
  rw [dispatch, holdings_setState, holdings_detach]

/-- What a task holds is found under its number. -/
theorem Linked.get?_of_holding {s : TaskStore} (h : s.Linked) {holding : Holding}
    (hmem : holding ∈ s.holdings) :
    ∃ task, s.get? holding.id = some task ∧ task.holding = holding := by
  obtain ⟨task, htask, rfl⟩ := List.mem_map.1 hmem
  exact ⟨task, h.get?_of_mem htask, rfl⟩

theorem holdings_enroll (s : TaskStore) (task : Task) :
    (s.enroll task).holdings = s.holdings ++ [task.holding] := by
  rw [holdings, enroll, List.map_append, List.map_singleton, holdings]

/-- Taking a task out of the store takes its holding out and no other. -/
theorem Linked.holdings_take {s : TaskStore} (h : s.Linked) {id : TaskId} {task : Task}
    (hget : s.get? id = some task) : s.holdings.Perm (task.holding :: (s.take id).2.holdings) := by
  obtain ⟨-, before, after, htasks, hbefore⟩ := List.find?_eq_some_iff_append.1 hget
  have hid := id_of_get? hget
  -- The lookup finds the first task with the number; no other task has it.
  have hafter : ∀ t ∈ after, t.id ≠ id := by
    have hnodup := h.liveIds_nodup
    rw [liveIds, htasks, List.map_append, List.map_cons] at hnodup
    obtain ⟨hout, -⟩ := List.nodup_cons.1 (List.nodup_append.1 hnodup).2.1
    intro t ht heq
    exact hout (List.mem_map.2 ⟨t, ht, heq.trans hid.symm⟩)
  have hfilter : s.tasks.filter (·.id != id) = before ++ after := by
    rw [htasks, List.filter_append, List.filter_cons_of_neg (by simp [hid])]
    rw [List.filter_eq_self.2 fun t ht => by simpa using hbefore t ht,
      List.filter_eq_self.2 fun t ht => by simpa using hafter t ht]
  have htake : (s.take id).2.tasks = before ++ after := by
    simp only [TaskStore.take, hget, tasks_unlink, hfilter]
  rw [holdings, holdings, htake, htasks, ← List.map_cons]
  exact List.perm_middle.map _

theorem Linked.holdings_bury {s : TaskStore} (h : s.Linked) {id : TaskId} {task : Task}
    (hmem : id ∈ (s.queue .zombie).ids) (hget : s.get? id = some task) :
    s.holdings.Perm (task.holding :: (s.bury id).holdings) := by
  have htake := (h.detach hmem).holdings_take (get?_detach_self .zombie hget)
  rwa [holdings_detach] at htake

/-- Storing what became of a live task, when it keeps its number and its queue. -/
theorem Linked.put {s : TaskStore} (h : s.Linked) {id : TaskId} {task task' : Task}
    (hget : s.get? id = some task) (hid : task'.id = task.id) (hqueue : task'.queue = task.queue) :
    (s.modify id fun _ => task').Linked ∧
      ∀ id', (s.modify id fun _ => task').get? id' =
        if id' = id then some task' else s.get? id' := by
  -- Only one task bears the number, so the change may as well keep number and queue of any task.
  have hsame : s.modify id (fun _ => task') =
      s.modify id fun t => { task' with id := t.id, queue := t.queue } := by
    rw [TaskStore.modify, TaskStore.modify]
    congr 1
    refine List.map_congr_left fun t ht => ?_
    by_cases heq : t.id = id
    · have hfound := h.get?_of_mem ht
      rw [heq, hget] at hfound
      cases hfound
      rw [← hid, ← hqueue]
    · simp [heq]
  have hget' := get?_modify s id (f := fun t => { task' with id := t.id, queue := t.queue })
  refine ⟨?_, fun id' => ?_⟩
  · rw [hsame]
    exact h.modify id (fun _ => rfl) fun _ => rfl
  · rw [hsame, hget' id' fun _ => rfl]
    by_cases heq : id' = id
    · rw [if_pos heq, if_pos heq, heq, hget, Option.map_some, ← hid, ← hqueue]
    · rw [if_neg heq, if_neg heq]

theorem Linked.dispatch {s : TaskStore} (h : s.Linked) {id : TaskId}
    (hmem : id ∈ (s.queue .ready).ids) : (s.dispatch id).Linked :=
  (h.detach hmem).setState id .running

end TaskStore

namespace Scheduler

open TaskStore

/-! ## Seated schedulers -/

/-- The running task is live, in no queue and not ready. -/
structure Seated (s : Scheduler) : Prop where
  linked : s.store.Linked
  current : ∀ id, s.current = some id →
    ∃ task, s.store.get? id = some task ∧ task.queue = none ∧ task.state ≠ .ready

theorem seated_empty : Seated .empty where
  linked := linked_empty
  current id h := by cases h

theorem seated_of_get? {store : TaskStore} {id : TaskId} {task : Task} (h : store.Linked)
    (hget : store.get? id = some task) (hqueue : task.queue = none) (hstate : task.state ≠ .ready) :
    Seated ⟨store, some id⟩ where
  linked := h
  current id' hcurrent := by
    cases hcurrent
    exact ⟨task, hget, hqueue, hstate⟩

theorem seated_dispatch {store : TaskStore} (h : store.Linked) {id : TaskId}
    (hmem : id ∈ (store.queue .ready).ids) : Seated ⟨store.dispatch id, some id⟩ := by
  obtain ⟨task, hget, -⟩ := (h.mem_queue .ready id).1 hmem
  exact seated_of_get? (h.dispatch hmem) ((get?_dispatch hget id).trans (if_pos rfl)) rfl (by simp)

theorem Settled.seated {s : Scheduler} (h : s.Settled) : s.Seated :=
  ⟨h.filed.linked, fun _ => h.get?_current⟩

/-- Tasks have moved between queues and states, and hold what they held. -/
structure Rearranged (s s' : Scheduler) : Prop where
  seated : s'.Seated
  holdings : s'.store.holdings = s.store.holdings

namespace Seated

variable {s : Scheduler}

theorem rearranged (h : s.Seated) : s.Rearranged s := ⟨h, rfl⟩

/-- A task may change in place as long as it holds the same and stays in its queue and state. -/
theorem put (h : s.Seated) {id : TaskId} {task task' : Task} (hget : s.store.get? id = some task)
    (hholding : task'.holding = task.holding) (hqueue : task'.queue = task.queue)
    (hstate : task'.state = task.state) : s.Rearranged (s.modify id fun _ => task') where
  seated := by
    obtain ⟨hlinked, hfound⟩ := h.linked.put hget (congrArg Holding.id hholding) hqueue
    refine ⟨hlinked, fun id' hcurrent => ?_⟩
    obtain ⟨found, hget', hidle, hbusy⟩ := h.current id' hcurrent
    by_cases heq : id' = id
    · rw [heq, hget] at hget'
      cases hget'
      exact ⟨task', (hfound id').trans (if_pos heq), hqueue.trans hidle, hstate ▸ hbusy⟩
    · exact ⟨found, (hfound id').trans ((if_neg heq).trans hget'), hidle, hbusy⟩
  holdings := by
    refine TaskStore.holdings_modify _ id fun t ht hid => ?_
    have hsame := h.linked.get?_of_mem ht
    rw [hid, hget] at hsame
    cases hsame
    exact hholding

/-- The running task may get any state but ready. -/
theorem setState (h : s.Seated) {id : TaskId} (hcurrent : s.current = some id) (state : TaskState)
    (hstate : state ≠ .ready) : s.Rearranged { s with store := s.store.setState id state } where
  seated := by
    refine ⟨h.linked.setState id state, fun id' hcurrent' => ?_⟩
    obtain rfl : id = id' := Option.some.inj (hcurrent.symm.trans hcurrent')
    obtain ⟨task, hget, hqueue, -⟩ := h.current id hcurrent
    exact ⟨_, get?_setState_self hget state, hqueue, hstate⟩
  holdings := holdings_setState s.store id state

/-- A change of the store that the running task does not see. -/
theorem of_store (h : s.Seated) {store : TaskStore} (hlinked : store.Linked)
    (hget : ∀ id, s.current = some id → store.get? id = s.store.get? id) :
    Seated { s with store } where
  linked := hlinked
  current id hcurrent := by
    rw [hget id hcurrent]
    exact h.current id hcurrent

/-- Filing a task that is not running. -/
theorem file (h : s.Seated) (kind : QueueKind) (state : TaskState) {id : TaskId} {task : Task}
    (hget : s.store.get? id = some task) (hother : s.current ≠ some id) :
    s.Rearranged { s with store := ((s.store.setState id state).enqueue kind id).2 } where
  seated := by
    have hget' := get?_setState_self hget state
    refine h.of_store ((h.linked.setState id state).enqueue kind hget') fun id' hcurrent => ?_
    have hne : id' ≠ id := by
      rintro rfl
      exact hother hcurrent
    rw [get?_enqueue kind hget', if_neg hne, get?_setState, if_neg hne]
  holdings := by simp

/-- Whoever is on a queue is not running. -/
theorem current_ne (h : s.Seated) {kind : QueueKind} {id : TaskId}
    (hmem : id ∈ (s.store.queue kind).ids) : s.current ≠ some id := by
  intro hcurrent
  obtain ⟨task, hget, hqueue, -⟩ := h.current id hcurrent
  rw [h.linked.mem_queue_iff hget, hqueue] at hmem
  cases hmem

end Seated

theorem Rearranged.trans {s s₁ s' : Scheduler} (h : s.Rearranged s₁) (h' : s₁.Rearranged s') :
    s.Rearranged s' :=
  ⟨h'.seated, h'.holdings.trans h.holdings⟩

theorem holdings_fileOutgoing {store store' : TaskStore} {id : TaskId}
    (h : fileOutgoing store id = .ok store') : store'.holdings = store.holdings := by
  rw [fileOutgoing] at h
  split at h
  · cases h
  · split at h
    · cases h
      rw [holdings_enqueue, holdings_setState]
    · cases h
      exact holdings_enqueue store .wait id
    · cases h
      exact holdings_enqueue store .zombie id
    · split at h
      · cases h
        rfl
      · cases h

theorem holdings_mark (mode : Outgoing) (store : TaskStore) (prev : TaskId) :
    (mode.mark store prev).holdings = store.holdings := by
  cases mode with
  | keep => rfl
  | retire => exact holdings_setState store prev .exited

/-! ## Requests that create nothing -/

section

variable {P : Type} [Platform P] {s : Scheduler}

theorem schedule_rearranged (h : s.Seated) (hw : P) : s.Rearranged (s.schedule hw).2.1 := by
  cases hfront : s.store.ready.front? with
  | none =>
      obtain ⟨hw', heq⟩ := schedule_of_empty hfront hw
      rw [heq]
      exact h.rearranged
  | some next =>
      cases hcurrent : s.current with
      | none =>
          obtain ⟨hw', heq⟩ := schedule_of_idle hcurrent hfront hw
          rw [heq]
          exact ⟨seated_dispatch h.linked (mem_of_front? hfront), holdings_dispatch s.store next⟩
      | some prev =>
          obtain ⟨old, hold, hqueue, hstate⟩ := h.current prev hcurrent
          obtain ⟨store, decision, hw', hfile, filed, -, hstill, heq, -⟩ :=
            schedule_of_current h.linked hcurrent hold hqueue hstate hfront hw
          rw [heq]
          exact ⟨seated_dispatch filed.linked hstill,
            (holdings_dispatch store next).trans (holdings_fileOutgoing hfile)⟩

theorem tick_rearranged (h : s.Seated) : s.Rearranged s.tick.2 := by
  rw [tick]
  split
  · exact h.rearranged
  · next task htask =>
      refine ⟨⟨h.linked.modify _ (fun _ => rfl) fun _ => rfl, ?_⟩, holdings_modify _ _ fun _ _ _ => rfl⟩
      intro id hcurrent
      obtain ⟨found, hget, hqueue, hstate⟩ := h.current id hcurrent
      have hmodify := get?_modify s.store task.id id (f := fun t => { t with ticks := t.ticks + 1 })
        fun _ => rfl
      by_cases hid : id = task.id
      · rw [if_pos hid, hget] at hmodify
        exact ⟨_, hmodify, hqueue, hstate⟩
      · rw [if_neg hid] at hmodify
        exact ⟨found, hmodify.trans hget, hqueue, hstate⟩

theorem terminate_rearranged (h : s.Seated) (id : TaskId) (hw : P) :
    s.Rearranged (s.terminate id hw).2.1 := by
  rw [terminate]
  split
  · exact h.rearranged
  · next task hfound =>
      dsimp only
      split
      · next hcurrent =>
          have hexited := h.setState hcurrent .exited (by simp)
          exact hexited.trans (schedule_rearranged hexited.seated hw)
      · next hother => exact h.file .zombie .exited (get?_of_lookup? hfound) hother

theorem exit_rearranged (h : s.Seated) (hw : P) : s.Rearranged (s.exit hw).2.1 := by
  rw [exit]
  split
  · exact h.rearranged
  · next id _ => exact terminate_rearranged h id hw

theorem blockCurrent_rearranged (h : s.Seated) (hw : P) :
    s.Rearranged (s.blockCurrent hw).2.1 := by
  rw [blockCurrent]
  split
  · exact h.rearranged
  · next id hcurrent =>
      have hblocked := h.setState hcurrent .blocked (by simp)
      exact hblocked.trans (schedule_rearranged hblocked.seated hw)

theorem wake_rearranged (h : s.Seated) (id : TaskId) : s.Rearranged (s.wake id).2 := by
  rw [wake]
  split
  · exact h.rearranged
  · next task hget =>
      split
      · exact h.rearranged
      · split
        · next hcurrent => exact h.setState hcurrent .running (by simp)
        · next hother => exact h.file .ready .ready hget hother

/-- A task on the ready queue is always adopted. -/
theorem adopt_rearranged_of_mem (h : s.Seated) {id : TaskId}
    (hmem : id ∈ (s.store.queue .ready).ids) (mode : Outgoing) :
    ∃ s', s.adopt id mode = (.ok (), s') ∧ s.Rearranged s' := by
  cases hcurrent : s.current with
  | none =>
      exact ⟨_, adopt_of_idle hcurrent hmem mode, seated_dispatch h.linked hmem,
        holdings_dispatch s.store id⟩
  | some prev =>
      obtain ⟨task, hget, -⟩ := (h.linked.mem_queue .ready id).1 hmem
      obtain ⟨old, hold, hqueue, hstate⟩ := h.current prev hcurrent
      obtain ⟨store, hfile, filed, hne, heq⟩ :=
        adopt_of_current h.linked hcurrent hold hqueue hstate hmem mode
      have hnew := (filed.get id).trans ((if_neg hne).trans (get?_detach_self .ready hget))
      refine ⟨_, heq, seated_of_get? (filed.linked.setState id .running)
        (get?_setState_self hnew .running) rfl (by simp), ?_⟩
      rw [holdings_setState, holdings_fileOutgoing hfile, holdings_mark, holdings_detach]

theorem adopt_rearranged (h : s.Seated) (id : TaskId) (mode : Outgoing) :
    s.Rearranged (s.adopt id mode).2 := by
  by_cases hmem : id ∈ (s.store.queue .ready).ids
  · obtain ⟨s', heq, hrearranged⟩ := adopt_rearranged_of_mem h hmem mode
    rw [heq]
    exact hrearranged
  · simp only [adopt, remove_of_not_mem hmem]
    exact h.rearranged

end

end Scheduler

end TaskKernel
