/-
  TaskKernel.Proofs.Scheduler.ReadyQueue

  What each request does to the ready queue. At most one task leaves it: the head when
  a task is dispatched, or the task that the request names. Whoever joins it joins at
  the tail and was not on it before.
-/
import TaskKernel.Proofs.Scheduler.Launches
import TaskKernel.Proofs.Scheduler.Requests

namespace TaskKernel

/-! ## Who leaves and who joins -/

/-- The task that a request has dispatched. -/
def Answer.dispatched? : Answer → Option TaskId
  | decided (.ok outcome) => outcome.dispatched?
  | terminated (.ok termination) => termination.outcome.dispatched?
  | _ => none

/-- The task that a request takes off the ready queue by its number, if it is there. -/
def Request.named? {S : Type} : Request S → Option TaskId
  | terminate id => some id
  | adopt id _ => some id
  | _ => none

/-- A queue without the task that was named. -/
def withoutNamed (queue : List TaskId) : Option TaskId → List TaskId
  | none => queue
  | some id => queue.erase id

theorem withoutNamed_of_not_mem {queue : List TaskId} {id : TaskId} (hout : id ∉ queue) :
    withoutNamed queue (some id) = queue :=
  List.erase_of_not_mem hout

/-- How a ready queue moves on to that of `s'`: a dispatch takes the head, and otherwise
    only the task that was named leaves. The others keep their places, and who joins was
    not there before and joins behind them. -/
inductive Advanced (queue : List TaskId) (named : Option TaskId) : Option TaskId → Scheduler → Prop
  | dispatch {id : TaskId} {rest joined : List TaskId} {s' : Scheduler}
      (head : queue = id :: rest) (current : s'.current = some id)
      (ready : s'.store.ready.ids = rest ++ joined) (fresh : ∀ id ∈ joined, id ∉ queue) :
      Advanced queue named (some id) s'
  | remain {joined : List TaskId} {s' : Scheduler}
      (ready : s'.store.ready.ids = withoutNamed queue named ++ joined)
      (fresh : ∀ id ∈ joined, id ∉ queue) : Advanced queue named none s'

namespace Advanced

variable {queue : List TaskId} {named : Option TaskId} {s' : Scheduler}

theorem of_ready_eq (h : s'.store.ready.ids = withoutNamed queue named) :
    Advanced queue named none s' :=
  .remain (h.trans (List.append_nil _).symm) fun _ hmem => absurd hmem List.not_mem_nil

/-- Whom the request named matters only if that task was on the queue. -/
theorem of_withoutNamed_eq {dispatched named' : Option TaskId} (h : Advanced queue named dispatched s')
    (hsame : withoutNamed queue named = withoutNamed queue named') :
    Advanced queue named' dispatched s' := by
  cases h with
  | dispatch head current ready fresh => exact .dispatch head current ready fresh
  | remain ready fresh => exact .remain (hsame ▸ ready) fresh

end Advanced

/-! ## Scheduling -/

namespace Scheduler

open TaskStore

/-- The running task, unless it has blocked or exited: the one that scheduling puts back on
    the ready queue. -/
def returning (s : Scheduler) : List TaskId :=
  match s.currentTask? with
  | none => []
  | some task => if task.state = .running then [task.id] else []

theorem returning_of_none {s : Scheduler} (h : s.current = none) : s.returning = [] := by
  simp only [returning, currentTask?, h, Option.bind_none]

theorem returning_of_get? {s : Scheduler} {id : TaskId} {task : Task} (hcurrent : s.current = some id)
    (hget : s.store.get? id = some task) :
    s.returning = if task.state = .running then [id] else [] := by
  simp only [returning, currentTask?, hcurrent, Option.bind_some, hget, id_of_get? hget]

/-- Of the tasks that leave off as they are, the ready queue gets those that were running. -/
theorem Settled.leaving_ready {s : Scheduler} (h : s.Settled) :
    s.leaving id .ready = s.returning := by
  cases hcurrent : s.current with
  | none => rw [leaving_of_none hcurrent, returning_of_none hcurrent]
  | some prev =>
      obtain ⟨task, hget, -, hbusy⟩ := h.get?_current hcurrent
      rw [leaving_of_get? hcurrent hget, returning_of_get? hcurrent hget]
      cases hstate : task.state with
      | ready => exact absurd hstate hbusy
      | running | blocked | exited => simp [hstate, TaskState.destination]

section

variable {P : Type} [Platform P] {s : Scheduler}

/-- The head of the ready queue has become the running task, and the task that was running
    has gone to the tail. -/
structure Dispatched (s : Scheduler) (next : TaskId) (s' : Scheduler) : Prop where
  current : s'.current = some next
  ready : ∃ rest, s.store.ready.ids = next :: rest ∧ s'.store.ready.ids = rest ++ s.returning
  running : ∃ task, s'.store.get? next = some task ∧ task.state = .running

/-- Scheduling does nothing where nobody is ready, and otherwise dispatches the head of
    the ready queue. -/
theorem schedule_cases (h : s.Settled) (hw : P) :
    (s.store.ready.ids = [] ∧ ∃ hw', s.schedule hw = (.ok .stay, s, hw')) ∨
    ∃ next outcome s' hw', s.schedule hw = (.ok outcome, s', hw') ∧
      outcome.dispatched? = some next ∧ Dispatched s next s' := by
  rcases schedule_handedOver h.seated hw with
    hstay | ⟨next, rest, outcome, s', hw', hready, heq, hnext, handed⟩
  · exact Or.inl hstay
  · obtain ⟨task, -, -, hget⟩ := handed.incoming
    refine Or.inr ⟨next, outcome, s', hw', heq, hnext, handed.current, ⟨rest, hready, ?_⟩,
      ⟨task.dispatched, hget, rfl⟩⟩
    have hqueue : s'.store.ready.ids = s.store.ready.ids.erase next ++ s.leaving id .ready :=
      handed.queues .ready
    rw [hqueue, hready, List.erase_cons_head, h.leaving_ready]

theorem schedule_advanced (h : s.Settled) (hw : P) :
    ∃ outcome s' hw', s.schedule hw = (.ok outcome, s', hw') ∧
      Advanced s.store.ready.ids none outcome.dispatched? s' := by
  rcases schedule_cases h hw with ⟨-, hw', heq⟩ | ⟨next, outcome, s', hw', heq, hnext, dispatched⟩
  · exact ⟨.stay, s, hw', heq, .of_ready_eq rfl⟩
  · obtain ⟨rest, hready, hready'⟩ := dispatched.ready
    refine ⟨outcome, s', hw', heq, ?_⟩
    rw [hnext]
    refine .dispatch hready dispatched.current hready' fun id hmem => ?_
    rw [← h.leaving_ready] at hmem
    exact h.seated.not_mem_of_leaving hmem .ready

/-! ## The other requests -/

theorem terminate_advanced (h : s.Settled) (id : TaskId) (hw : P) :
    (∃ e, s.terminate id hw = (.error e, s, hw) ∧ id ∉ s.store.ready.ids) ∨
    ∃ termination s' hw', s.terminate id hw = (.ok termination, s', hw') ∧
      Advanced s.store.ready.ids (some id) termination.outcome.dispatched? s' := by
  cases hfound : s.lookup? id with
  | none =>
      refine Or.inl ⟨.notFound id, by simp only [terminate, hfound], ?_⟩
      -- A task on the ready queue would have been found.
      intro (hmem : id ∈ (s.store.queue .ready).ids)
      obtain ⟨task, hget, hqueue, -⟩ := h.filed.get?_of_mem hmem
      simp [lookup?, findQueued?, hget, hqueue] at hfound
  | some task =>
      have hget := get?_of_lookup? hfound
      refine Or.inr ?_
      by_cases hcurrent : s.current = some id
      -- The running task is on no queue, so it makes no difference that it is the one named.
      · obtain ⟨outcome, s', hw', hschedule, hadvanced⟩ :=
          schedule_advanced (h.setState hcurrent .exited (by simp)) hw
        refine ⟨.rescheduled outcome, s', hw', ?_, ?_⟩
        · simp only [terminate, hfound, if_pos hcurrent, hschedule]
          rfl
        · exact hadvanced.of_withoutNamed_eq
            (withoutNamed_of_not_mem (h.not_mem_queue hcurrent .ready)).symm
      · have hids := (h.filed.linked.setState id .exited).ids_enqueue
          (get?_setState_self hget .exited) .zombie .ready
        rw [queue_setState, if_neg (by simp), List.append_nil] at hids
        refine ⟨.filed, ⟨((s.store.setState id .exited).enqueue .zombie id).2, s.current⟩, hw, ?_,
          .of_ready_eq hids⟩
        simp only [terminate, hfound, if_neg hcurrent]

theorem blockCurrent_advanced (h : s.Settled) (hw : P) :
    s.blockCurrent hw = (.error .noCurrentTask, s, hw) ∨
    ∃ outcome s' hw', s.blockCurrent hw = (.ok outcome, s', hw') ∧
      Advanced s.store.ready.ids none outcome.dispatched? s' := by
  cases hcurrent : s.current with
  | none => exact Or.inl (by simp only [blockCurrent, hcurrent])
  | some id =>
      obtain ⟨outcome, s', hw', hschedule, hadvanced⟩ :=
        schedule_advanced (h.setState hcurrent .blocked (by simp)) hw
      refine Or.inr ⟨outcome, s', hw', ?_, hadvanced⟩
      rw [← hschedule]
      simp only [blockCurrent, hcurrent]

/-- A task that is woken joins at the tail, unless it is still the running one. -/
theorem wake_advanced (h : s.Settled) (id : TaskId) :
    Advanced s.store.ready.ids none none (s.wake id).2 := by
  cases hget : s.store.get? id with
  | none =>
      simp only [wake, hget]
      exact .of_ready_eq rfl
  | some task =>
      by_cases hstate : task.state = .blocked
      · by_cases hcurrent : s.current = some id
        · simp only [wake, hget, hstate, hcurrent, ne_eq, not_true_eq_false, if_false, if_true]
          exact .of_ready_eq rfl
        -- Tasks on the ready queue are ready, and this one is blocked.
        · have hout : id ∉ s.store.ready.ids := by
            intro (hmem : id ∈ (s.store.queue .ready).ids)
            obtain ⟨found, hfound, -, hready⟩ := h.filed.get?_of_mem hmem
            rw [hget] at hfound
            cases hfound
            rw [hstate] at hready
            cases hready
          have hids := (h.filed.linked.setState id .ready).ids_enqueue
            (get?_setState_self hget .ready) .ready .ready
          rw [queue_setState, if_pos rfl] at hids
          simp only [wake, hget, hstate, if_neg hcurrent, ne_eq, not_true_eq_false, if_false]
          refine .remain (hids.trans (congrArg (· ++ [id]) (List.erase_of_not_mem hout))) ?_
          intro id' hmem
          rw [List.mem_singleton.1 hmem]
          exact hout
      · simp only [wake, hget, ne_eq, hstate, not_false_eq_true, if_true]
        exact .of_ready_eq rfl

/-- An adopted task leaves the queue from wherever it stood. -/
theorem adopt_advanced (h : s.Settled) (id : TaskId) (mode : Outgoing) :
    Advanced s.store.ready.ids (some id) none (s.adopt id mode).2 := by
  by_cases hmem : id ∈ (s.store.queue .ready).ids
  · obtain ⟨s', heq, handed⟩ := adopt_handedOver h.seated hmem mode
    rw [heq]
    exact .remain (handed.queues .ready) fun id hjoined =>
      h.seated.not_mem_of_leaving hjoined .ready
  · simp only [adopt, remove_of_not_mem hmem]
    exact .of_ready_eq (List.erase_of_not_mem hmem).symm

theorem exit_advanced (h : s.Settled) (hw : P) :
    (∃ e, s.exit hw = (.error e, s, hw)) ∨
    ∃ outcome s' hw', s.exit hw = (.ok outcome, s', hw') ∧
      Advanced s.store.ready.ids none outcome.dispatched? s' := by
  cases hcurrent : s.current with
  | none => exact Or.inl ⟨.noCurrentTask, by simp only [exit, hcurrent]⟩
  | some id =>
      rcases terminate_advanced h id hw with ⟨e, herror, -⟩ | ⟨termination, s', hw', hok, hadvanced⟩
      · refine Or.inl ⟨e, ?_⟩
        simp only [exit, hcurrent, herror]
        rfl
      · refine Or.inr ⟨termination.outcome, s', hw', ?_,
          hadvanced.of_withoutNamed_eq (withoutNamed_of_not_mem (h.not_mem_queue hcurrent .ready))⟩
        simp only [exit, hcurrent, hok]
        rfl

theorem tick_advanced (s : Scheduler) : Advanced s.store.ready.ids none none s.tick.2 := by
  cases htask : s.currentTask? with
  | none =>
      simp only [tick, htask]
      exact .of_ready_eq rfl
  | some task =>
      simp only [tick, htask]
      exact .of_ready_eq rfl

end

/-! ## Requests that take frames or give them back -/

section

variable {F P S : Type} [FrameSource F] [Platform P] [ImageSource S] {s : Scheduler}

/-- A fresh task goes behind everyone. -/
theorem ready_enroll (h : s.Settled) {task : Task} (hid : task.id = ⟨s.store.nextId⟩)
    (hqueue : task.queue = none) :
    ((s.store.enroll task).enqueue .ready ⟨s.store.nextId⟩).2.ready.ids =
      s.store.ready.ids ++ [⟨s.store.nextId⟩] :=
  h.filed.linked.ids_enlisted hid hqueue .ready

theorem createTask_advanced (h : s.Settled) (mem : Memory F) (entry : VirtAddr) (imageSize : Nat) :
    Advanced s.store.ready.ids none none (s.createTask mem entry imageSize).2.1 := by
  rcases create_cases s.store mem entry imageSize with
    ⟨e, mem', hcreate⟩ | ⟨task, mem', hid, -, hqueue, hcreate⟩
  · simp only [createTask, hcreate]
    exact .of_ready_eq rfl
  · simp only [createTask, hcreate]
    refine .remain (ready_enroll h hid hqueue) fun id hmem => ?_
    rw [List.mem_singleton.1 hmem]
    exact h.filed.linked.nextId_not_mem .ready

/-- The idle task joins at the tail and leaves from there. -/
theorem init_advanced (h : s.Settled) (mem : Memory F) (entry : VirtAddr) :
    Advanced s.store.ready.ids none none (s.init mem entry).2.1 := by
  rcases create_cases s.store mem entry pageSize with
    ⟨e, mem', hcreate⟩ | ⟨task, mem', hid, hstate, hqueue, hcreate⟩
  · simp only [init, hcreate]
    exact .of_ready_eq rfl
  · have hids := ready_enroll h hid hqueue
    have hmem : (⟨s.store.nextId⟩ : TaskId) ∈
        (((s.store.enroll task).enqueue .ready ⟨s.store.nextId⟩).2.queue .ready).ids := by
      show _ ∈ TaskQueue.ids (TaskStore.ready _)
      rw [hids]
      exact List.mem_append_right _ List.mem_cons_self
    have hready := ready_dispatch ((s.store.enroll task).enqueue .ready ⟨s.store.nextId⟩).2
      ⟨s.store.nextId⟩
    have hout : (⟨s.store.nextId⟩ : TaskId) ∉ s.store.ready.ids :=
      h.filed.linked.nextId_not_mem .ready
    rw [hids, List.erase_append_right _ hout, List.erase_cons_head, List.append_nil] at hready
    simp only [init, hcreate, remove_of_mem hmem]
    exact .of_ready_eq hready

/-- A task that is launched passes through the ready queue without a trace. -/
theorem prepare_advanced (h : s.Settled) (mem : Memory F) (hw : P) (images : S) (name : String)
    (mode : LaunchMode) :
    Advanced s.store.ready.ids none none (s.prepare mem hw images name mode).2.1 := by
  have hend := prepare_end h.seated mem hw images name mode
  generalize s.prepare mem hw images name mode = result at hend ⊢
  cases hend with
  | notFound size | noRoom size allocate | notBuilt size allocate build => exact .of_ready_eq rfl
  | started size allocate build rearranged handed =>
      obtain ⟨hid, -, hqueue⟩ := Task.fresh_of_build build
      have taken := takenOver_of_handedOver h.seated hid hqueue handed
      exact .remain (taken.queues .ready) fun id hmem => h.seated.not_mem_of_leaving hmem .ready

/-- Zombies are not ready, so taking them out leaves the ready queue alone. -/
theorem Buried.ready_eq {store store' : TaskStore} {mem mem' : Memory F} {ids : List TaskId}
    (buried : Buried store mem ids store' mem') (h : store.Linked) :
    store'.ready.ids = store.ready.ids := by
  induction buried with
  | nil => rfl
  | cons zombie get rest ih =>
      refine (ih (h.bury zombie)).trans ((h.ids_bury zombie .ready).trans ?_)
      refine List.erase_of_not_mem fun hready => ?_
      have hzombie := (h.mem_queue_iff get .zombie).1 zombie
      rw [(h.mem_queue_iff get .ready).1 hready] at hzombie
      cases hzombie

theorem reap_advanced (h : s.Settled) (mem : Memory F) :
    Advanced s.store.ready.ids none none (s.reap mem).2.1 :=
  .of_ready_eq <|
    (reapZombies_buried s.store.zombie.length h.filed.linked mem).ready_eq h.filed.linked

/-- Every request moves the ready queue on in this one way. -/
theorem Settled.answered_advanced (h : s.Settled) (mem : Memory F) (hw : P) (request : Request S) :
    Advanced s.store.ready.ids request.named? (s.answer mem hw request).1.dispatched?
      (s.answer mem hw request).2.1 := by
  cases request with
  | init entry =>
      have hadvanced := init_advanced h mem entry
      simp only [answer]
      cases (s.init mem entry).1 <;> exact hadvanced
  | create entry imageSize =>
      have hadvanced := createTask_advanced h mem entry imageSize
      simp only [answer]
      cases (s.createTask mem entry imageSize).1 <;> exact hadvanced
  | prepare images name mode =>
      have hadvanced := prepare_advanced h mem hw images name mode
      simp only [answer]
      cases (s.prepare mem hw images name mode).1 <;> exact hadvanced
  | schedule =>
      obtain ⟨outcome, s', hw', heq, hadvanced⟩ := schedule_advanced h hw
      simp only [answer, heq]
      exact hadvanced
  | tick => exact tick_advanced s
  | terminate id =>
      rcases terminate_advanced h id hw with ⟨e, heq, hout⟩ | ⟨termination, s', hw', heq, hadvanced⟩
      · simp only [answer, heq]
        exact .of_ready_eq (withoutNamed_of_not_mem hout).symm
      · simp only [answer, heq]
        exact hadvanced
  | exit =>
      rcases exit_advanced h hw with ⟨e, heq⟩ | ⟨outcome, s', hw', heq, hadvanced⟩
      · simp only [answer, heq]
        exact .of_ready_eq rfl
      · simp only [answer, heq]
        exact hadvanced
  | blockCurrent =>
      rcases blockCurrent_advanced h hw with heq | ⟨outcome, s', hw', heq, hadvanced⟩
      · simp only [answer, heq]
        exact .of_ready_eq rfl
      · simp only [answer, heq]
        exact hadvanced
  | wake id =>
      have hadvanced := wake_advanced h id
      simp only [answer]
      cases (s.wake id).1 <;> exact hadvanced
  | adopt id mode =>
      have hadvanced := adopt_advanced h id mode
      simp only [answer]
      cases (s.adopt id mode).1 <;> exact hadvanced
  | reap => exact reap_advanced h mem

end

end Scheduler

end TaskKernel
