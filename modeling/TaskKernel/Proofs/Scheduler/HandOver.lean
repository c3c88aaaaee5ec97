/-
  TaskKernel.Proofs.Scheduler.HandOver

  How the processor passes from one task to another. A switch and an adoption do the same to
  the tasks: one of them leaves the ready queue and runs, the one that ran goes to the tail of
  the queue that its state calls for, and nobody else is touched.
-/
import TaskKernel.Proofs.Scheduler.Seated

namespace TaskKernel

/-! ## Leaving and taking the processor -/

/-- The task as it runs. -/
def Task.dispatched (task : Task) : Task := { task with state := .running, queue := none }

/-- The task that a decision makes the running one. -/
def Outcome.dispatched? : Outcome → Option TaskId
  | .stay => none
  | .installed id => some id
  | .switch decision => some decision.incoming

namespace Scheduler

open TaskStore

/-- Who joins a queue when the running task leaves off as `leave` says. -/
def leaving (s : Scheduler) (leave : Task → Task) (kind : QueueKind) : List TaskId :=
  match s.currentTask? with
  | none => []
  | some task => if kind = (leave task).state.destination then [task.id] else []

theorem leaving_of_none {s : Scheduler} (h : s.current = none) (leave : Task → Task)
    (kind : QueueKind) : s.leaving leave kind = [] := by
  simp only [leaving, currentTask?, h, Option.bind_none]

theorem leaving_of_get? {s : Scheduler} {id : TaskId} {task : Task} (hcurrent : s.current = some id)
    (hget : s.store.get? id = some task) (leave : Task → Task) (kind : QueueKind) :
    s.leaving leave kind = if kind = (leave task).state.destination then [id] else [] := by
  simp only [leaving, currentTask?, hcurrent, Option.bind_some, hget, id_of_get? hget]

/-- Who joins was not queued before. -/
theorem Seated.not_mem_of_leaving {s : Scheduler} (h : s.Seated) {leave : Task → Task}
    {kind : QueueKind} {id : TaskId} (hmem : id ∈ s.leaving leave kind) (kind' : QueueKind) :
    id ∉ (s.store.queue kind').ids := by
  cases hcurrent : s.current with
  | none =>
      rw [leaving_of_none hcurrent] at hmem
      cases hmem
  | some prev =>
      obtain ⟨task, hget, -⟩ := h.current prev hcurrent
      rw [leaving_of_get? hcurrent hget] at hmem
      split at hmem
      · rw [List.mem_singleton.1 hmem]
        exact fun hqueued => h.current_ne hqueued hcurrent
      · cases hmem

/-- The task `next` has left the ready queue and runs. The task that ran before it left off as
    `leave` says and is filed, and everyone else is as before. -/
structure HandedOver (s : Scheduler) (leave : Task → Task) (next : TaskId) (s' : Scheduler) :
    Prop where
  current : s'.current = some next
  nextId : s'.store.nextId = s.store.nextId
  incoming : ∃ task, s.store.get? next = some task ∧ task.queue = some .ready ∧
    s'.store.get? next = some task.dispatched
  outgoing : ∀ prev task, s.current = some prev → s.store.get? prev = some task →
    s'.store.get? prev = some (leave task).filed
  others : ∀ id, id ≠ next → s.current ≠ some id → s'.store.get? id = s.store.get? id
  queues : ∀ kind, (s'.store.queue kind).ids =
    (s.store.queue kind).ids.erase next ++ s.leaving leave kind

/-! ## Scheduling -/

section

variable {s : Scheduler}

theorem erase_append_of_not_mem (queue : List TaskId) {tail : List TaskId} {id : TaskId}
    (h : id ∉ tail) : (queue ++ tail).erase id = queue.erase id ++ tail := by
  rw [List.erase_append]
  split
  · rfl
  · next hout => rw [List.erase_of_not_mem h, List.erase_of_not_mem hout]

/-- With nobody running, the task is only taken off the ready queue. -/
theorem handedOver_of_idle (h : s.store.Linked) (hcurrent : s.current = none) {id : TaskId}
    (hmem : id ∈ (s.store.queue .ready).ids) (leave : Task → Task) :
    HandedOver s leave id ⟨s.store.dispatch id, some id⟩ := by
  obtain ⟨new, hget, hqueue⟩ := (h.mem_queue .ready id).1 hmem
  refine ⟨rfl, nextId_dispatch _ _, ⟨new, hget, hqueue, ?_⟩, ?_, fun id' hne _ => ?_,
    fun kind => ?_⟩
  · exact (get?_dispatch hget id).trans (if_pos rfl)
  · intro prev task hprev
    rw [hcurrent] at hprev
    cases hprev
  · exact (get?_dispatch hget id').trans (if_neg hne)
  · rw [h.ids_dispatch hmem, leaving_of_none hcurrent, List.append_nil]

/-- Scheduling does nothing where nobody is ready, and otherwise hands over to the head of the
    ready queue. -/
theorem schedule_handedOver {P : Type} [Platform P] (h : s.Seated) (hw : P) :
    (s.store.ready.ids = [] ∧ ∃ hw', s.schedule hw = (.ok .stay, s, hw')) ∨
    ∃ next rest outcome s' hw', s.store.ready.ids = next :: rest ∧
      s.schedule hw = (.ok outcome, s', hw') ∧ outcome.dispatched? = some next ∧
      HandedOver s id next s' := by
  cases hready : s.store.ready.ids with
  | nil =>
      have hfront : s.store.ready.front? = none := by rw [TaskQueue.front?, hready]; rfl
      exact Or.inl ⟨rfl, schedule_of_empty hfront hw⟩
  | cons next rest =>
      have hfront : s.store.ready.front? = some next := by rw [TaskQueue.front?, hready]; rfl
      have hmem : next ∈ (s.store.queue .ready).ids := mem_of_front? hfront
      obtain ⟨new, hget, hready⟩ := (h.linked.mem_queue .ready next).1 hmem
      refine Or.inr ⟨next, rest, ?_⟩
      cases hcurrent : s.current with
      | none =>
          obtain ⟨hw', heq⟩ := schedule_of_idle hcurrent hfront hw
          exact ⟨_, _, hw', rfl, heq, rfl, handedOver_of_idle h.linked hcurrent hmem id⟩
      | some prev =>
          obtain ⟨old, hold, hqueue, hbusy⟩ := h.current prev hcurrent
          obtain ⟨store, decision, hw', -, filed, hne, hstill, heq, hincoming⟩ :=
            schedule_of_current h.linked hcurrent hold hqueue hbusy hfront hw
          have hnext := (filed.get next).trans ((if_neg hne).trans hget)
          refine ⟨_, _, hw', rfl, heq, congrArg some hincoming, rfl,
            (nextId_dispatch _ _).trans filed.nextId, ⟨new, hget, hready, ?_⟩, ?_,
            fun id hid hother => ?_, fun kind => ?_⟩
          · exact (get?_dispatch hnext next).trans (if_pos rfl)
          · intro id task hid htask
            cases hcurrent.symm.trans hid
            cases hold.symm.trans htask
            exact (get?_dispatch hnext prev).trans
              ((if_neg hne.symm).trans ((filed.get prev).trans (if_pos rfl)))
          · have hnot : id ≠ prev := fun heq => hother (heq ▸ hcurrent)
            exact (get?_dispatch hnext id).trans
              ((if_neg hid).trans ((filed.get id).trans (if_neg hnot)))
          · rw [filed.linked.ids_dispatch hstill, filed.queues, leaving_of_get? hcurrent hold]
            refine erase_append_of_not_mem _ ?_
            split
            · exact fun hin => hne (List.mem_singleton.1 hin)
            · exact List.not_mem_nil

/-! ## Adopting -/

/-- A ready task is always adopted, and takes over from the running one. -/
theorem adopt_handedOver (h : s.Seated) {id : TaskId} (hmem : id ∈ (s.store.queue .ready).ids)
    (mode : Outgoing) : ∃ s', s.adopt id mode = (.ok (), s') ∧ HandedOver s mode.leave id s' := by
  obtain ⟨new, hget, hready⟩ := (h.linked.mem_queue .ready id).1 hmem
  cases hcurrent : s.current with
  | none =>
      exact ⟨_, adopt_of_idle hcurrent hmem mode,
        handedOver_of_idle h.linked hcurrent hmem mode.leave⟩
  | some prev =>
      obtain ⟨old, hold, hqueue, hbusy⟩ := h.current prev hcurrent
      obtain ⟨store, -, filed, hne, heq⟩ :=
        adopt_of_current h.linked hcurrent hold hqueue hbusy hmem mode
      have hdetached (id' : TaskId) := get?_detach .ready hget id'
      have hnew := (filed.get id).trans ((if_neg hne).trans (get?_detach_self .ready hget))
      refine ⟨_, heq, rfl, filed.nextId.trans (nextId_detach _ _ _), ⟨new, hget, hready, ?_⟩, ?_,
        fun id' hid hother => ?_, fun kind => ?_⟩
      · exact get?_setState_self hnew .running
      · intro prev' task hprev htask
        cases hcurrent.symm.trans hprev
        cases hold.symm.trans htask
        rw [get?_setState, if_neg hne.symm, filed.get, if_pos rfl]
      · have hnot : id' ≠ prev := fun heq => hother (heq ▸ hcurrent)
        rw [get?_setState, if_neg hid, filed.get, if_neg hnot, hdetached, if_neg hid]
      · have hids := h.linked.ids_dispatch hmem kind
        rw [dispatch, queue_setState] at hids
        rw [queue_setState, filed.queues, hids, leaving_of_get? hcurrent hold]

/-! ## Settled schedulers -/

/-- Once the processor has changed hands, the one task that runs is the one in no queue. -/
theorem HandedOver.settled {leave : Task → Task} {next : TaskId} {s' : Scheduler}
    (handed : HandedOver s leave next s') (h : s.Settled) (hlinked : s'.store.Linked) :
    s'.Settled := by
  obtain ⟨new, hnew, hready, hget⟩ := handed.incoming
  -- A task is the one that came, the one that went, or untouched.
  refine ⟨⟨hlinked, fun {id task kind} hfound hqueue => ?_, fun id => ?_⟩,
    fun {id task} hcurrent hfound => ?_⟩
  · by_cases hid : id = next
    · rw [hid, hget] at hfound
      cases hfound
      cases hqueue
    · by_cases hcurrent : s.current = some id
      · obtain ⟨old, hold, -⟩ := h.get?_current hcurrent
        rw [handed.outgoing id old hcurrent hold] at hfound
        cases hfound
        cases hqueue
        rfl
      · rw [handed.others id hid hcurrent] at hfound
        exact h.filed.state_of_queue hfound hqueue
  · rw [Set.mem_ofPred_eq, handed.current]
    constructor
    · rintro ⟨rfl⟩
      exact ⟨new.dispatched, hget, rfl⟩
    · rintro ⟨task, hfound, hqueue⟩
      by_contra hid
      have hid : id ≠ next := fun heq => hid (congrArg some heq.symm)
      by_cases hcurrent : s.current = some id
      · obtain ⟨old, hold, -⟩ := h.get?_current hcurrent
        rw [handed.outgoing id old hcurrent hold] at hfound
        cases hfound
        cases hqueue
      · rw [handed.others id hid hcurrent] at hfound
        exact hcurrent ((h.filed.loose_iff id).2 ⟨task, hfound, hqueue⟩)
  · cases handed.current.symm.trans hcurrent
    rw [hget] at hfound
    cases hfound
    simp [Task.dispatched]

end

end Scheduler

end TaskKernel
