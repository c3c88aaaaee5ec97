/-
  TaskKernel.Proofs.Scheduler.Settled

  The invariant of a scheduler and what each operation does to it. A scheduler is
  settled when its store is filed but for the running task, which is not ready. In a
  settled scheduler no operation meets a task whose state disagrees with the queues:
  each lemma states the way out that is taken, so that the error branches for such
  tasks are shown dead on the way.
-/
import TaskKernel.Launch
import TaskKernel.Proofs.Task.Filed

namespace TaskKernel

/-! ## Making a queued task the running one -/

namespace TaskStore

/-- The store with a ready task taken off its queue and set running. -/
def dispatch (s : TaskStore) (id : TaskId) : TaskStore := (s.detach .ready id).setState id .running

@[simp] theorem nextId_dispatch (s : TaskStore) (id : TaskId) :
    (s.dispatch id).nextId = s.nextId :=
  nextId_detach s .ready id

theorem get?_dispatch {s : TaskStore} {id : TaskId} {task : Task} (hget : s.get? id = some task)
    (id' : TaskId) : (s.dispatch id).get? id' =
      if id' = id then some { task with state := .running, queue := none } else s.get? id' := by
  rw [dispatch, get?_setState, get?_detach .ready hget]
  by_cases heq : id' = id <;> simp [heq]

theorem ready_dispatch (s : TaskStore) (id : TaskId) :
    (s.dispatch id).ready.ids = s.ready.ids.erase id := by
  have hids := ids_detach s .ready .ready id
  rw [if_pos rfl] at hids
  exact hids

theorem Linked.ids_dispatch {s : TaskStore} (h : s.Linked) {id : TaskId}
    (hmem : id ∈ (s.queue .ready).ids) (kind : QueueKind) :
    ((s.dispatch id).queue kind).ids = (s.queue kind).ids.erase id := by
  rw [dispatch, queue_setState, ids_detach]
  split
  · rfl
  · next hne =>
      -- Whoever is on the ready queue is on no other.
      obtain ⟨task, hget, hqueue⟩ := (h.mem_queue .ready id).1 hmem
      refine (List.erase_of_not_mem fun hother => hne ?_).symm
      exact Option.some.inj (((h.mem_queue_iff hget kind).1 hother).symm.trans hqueue)

theorem Filed.dispatch {s : TaskStore} {loose : Set TaskId} (h : s.Filed loose) {id : TaskId}
    (hmem : id ∈ (s.queue .ready).ids) : (s.dispatch id).Filed (insert id loose) :=
  Filed.setState (Filed.detach h hmem) (Set.mem_insert id loose) .running

end TaskStore

/-! ## Leaving the processor -/

/-- The queue for a task that stops running in this state. -/
def TaskState.destination : TaskState → QueueKind
  | ready => .ready
  | running => .ready
  | blocked => .wait
  | exited => .zombie

/-- The task as it stands in the queue that its state calls for. -/
def Task.filed (task : Task) : Task :=
  { task with state := task.state.destination.state, queue := some task.state.destination }

namespace Scheduler

open TaskStore

/-! ## Settled schedulers -/

/-- Every task is where its state says, and the running task is not ready. -/
structure Settled (s : Scheduler) : Prop where
  filed : s.store.Filed {id | s.current = some id}
  not_ready : ∀ {id task}, s.current = some id → s.store.get? id = some task → task.state ≠ .ready

theorem settled_empty : Settled .empty where
  filed := by
    have hnone : {id : TaskId | Scheduler.empty.current = some id} = ∅ := by
      ext id
      simp [empty]
    rw [hnone]
    exact filed_empty
  not_ready h := by cases h

/-- A store in which one task is loose and not ready makes a settled scheduler. -/
theorem settled_of_filed {store : TaskStore} {id : TaskId} {task : Task}
    (h : store.Filed {id}) (hget : store.get? id = some task) (hstate : task.state ≠ .ready) :
    Settled ⟨store, some id⟩ where
  filed := by
    have hone : {id' : TaskId | some id = some id'} = {id} := by
      ext id'
      simp [eq_comm]
    rw [hone]
    exact h
  not_ready {id' task'} hcurrent hget' := by
    cases hcurrent
    rw [hget] at hget'
    cases hget'
    exact hstate

/-- Where no task is loose, a ready task can be made the running one. -/
theorem settled_dispatch {store : TaskStore} {id : TaskId} (h : store.Filed ∅)
    (hmem : id ∈ (store.queue .ready).ids) : Settled ⟨store.dispatch id, some id⟩ := by
  obtain ⟨task, hget, -, -⟩ := h.get?_of_mem hmem
  have hfiled := h.dispatch hmem
  rw [insert_empty_eq] at hfiled
  have hnew := (get?_dispatch hget id).trans (if_pos rfl)
  exact settled_of_filed hfiled hnew (by simp)

namespace Settled

variable {s : Scheduler}

theorem get?_current (h : s.Settled) {id : TaskId} (hcurrent : s.current = some id) :
    ∃ task, s.store.get? id = some task ∧ task.queue = none ∧ task.state ≠ .ready := by
  obtain ⟨task, hget, hqueue⟩ := h.filed.get?_of_loose hcurrent
  exact ⟨task, hget, hqueue, h.not_ready hcurrent hget⟩

theorem filed_current (h : s.Settled) {id : TaskId} (hcurrent : s.current = some id) :
    s.store.Filed {id} := by
  have hone : {id' : TaskId | s.current = some id'} = {id} := by
    ext id'
    simp [hcurrent, eq_comm]
  rw [← hone]
  exact h.filed

theorem filed_none (h : s.Settled) (hcurrent : s.current = none) : s.store.Filed ∅ := by
  have hnone : {id : TaskId | s.current = some id} = ∅ := by
    ext id
    simp [hcurrent]
  rw [← hnone]
  exact h.filed

/-- The running task is on no queue. -/
theorem not_mem_queue (h : s.Settled) {id : TaskId} (hcurrent : s.current = some id)
    (kind : QueueKind) : id ∉ (s.store.queue kind).ids :=
  fun hmem => h.filed.not_loose_of_mem hmem hcurrent

/-- The running task may get any state but ready. -/
theorem setState (h : s.Settled) {id : TaskId} (hcurrent : s.current = some id)
    (state : TaskState) (hstate : state ≠ .ready) :
    Settled { s with store := s.store.setState id state } where
  filed := h.filed.setState hcurrent state
  not_ready {id' task'} hcurrent' hget := by
    rw [show s.current = some id' from hcurrent'] at hcurrent
    cases hcurrent
    rw [get?_setState, if_pos rfl] at hget
    obtain ⟨task, -, rfl⟩ := Option.map_eq_some_iff.1 hget
    exact hstate

/-- A change of a task that keeps its number, queue and state. -/
theorem modify (h : s.Settled) (id : TaskId) {f : Task → Task} (hid : ∀ t, (f t).id = t.id)
    (hqueue : ∀ t, (f t).queue = t.queue) (hstate : ∀ t, (f t).state = t.state) :
    (s.modify id f).Settled where
  filed := h.filed.modify id hid hqueue hstate
  not_ready {id' task'} hcurrent hget := by
    rw [show (s.modify id f).store.get? id' = _ from get?_modify s.store id id' hid] at hget
    split at hget
    · obtain ⟨task, hold, rfl⟩ := Option.map_eq_some_iff.1 hget
      rw [hstate]
      exact h.not_ready hcurrent hold
    · exact h.not_ready hcurrent hget

/-- A change of the store that keeps the loose tasks loose and unchanged. -/
theorem of_store (h : s.Settled) {store : TaskStore}
    (hfiled : store.Filed {id | s.current = some id})
    (hget : ∀ id, s.current = some id → store.get? id = s.store.get? id) :
    Settled { s with store } where
  filed := hfiled
  not_ready {id task} hcurrent hfound := by
    rw [hget id hcurrent] at hfound
    exact h.not_ready hcurrent hfound

end Settled

/-! ## Filing the outgoing task -/

/-- The task `id`, in the store as `task` and in no queue, has been filed. -/
structure FiledOutgoing (store : TaskStore) (id : TaskId) (task : Task) (store' : TaskStore) :
    Prop where
  linked : store'.Linked
  nextId : store'.nextId = store.nextId
  get : ∀ id', store'.get? id' = if id' = id then some task.filed else store.get? id'
  queues : ∀ kind, (store'.queue kind).ids =
    (store.queue kind).ids ++ if kind = task.state.destination then [id] else []

theorem filedOutgoing_enqueue {store marked : TaskStore} {id : TaskId} {task : Task}
    (h : marked.Linked) (hqueue : task.queue = none) (hnextId : marked.nextId = store.nextId)
    (hget : ∀ id', marked.get? id' =
      if id' = id then some { task with state := task.state.destination.state }
      else store.get? id')
    (hqueues : ∀ kind, marked.queue kind = store.queue kind) :
    FiledOutgoing store id task (marked.enqueue task.state.destination id).2 := by
  have hmarked := (hget id).trans (if_pos rfl)
  refine ⟨h.enqueue _ hmarked, (nextId_enqueue _ _ _).trans hnextId, fun id' => ?_, fun kind => ?_⟩
  · rw [get?_enqueue _ hmarked, hget]
    by_cases heq : id' = id
    · rw [if_pos heq, if_pos heq]
      rfl
    · simp only [if_neg heq]
  · have hout : id ∉ (marked.queue kind).ids := by
      rw [h.mem_queue_iff hmarked, hqueue]
      simp
    rw [h.ids_enqueue hmarked, List.erase_of_not_mem hout, hqueues]

theorem fileOutgoing_filed {store : TaskStore} {id : TaskId} {task : Task} (h : store.Linked)
    (hget : store.get? id = some task) (hqueue : task.queue = none) (hstate : task.state ≠ .ready) :
    ∃ store', fileOutgoing store id = .ok store' ∧ FiledOutgoing store id task store' := by
  -- A blocked or an exited task has the state of its queue already.
  have hkeep (hsame : task.state.destination.state = task.state) :
      FiledOutgoing store id task (store.enqueue task.state.destination id).2 := by
    refine filedOutgoing_enqueue h hqueue rfl (fun id' => ?_) fun _ => rfl
    rw [hsame]
    split
    · next heq => rw [heq, hget]
    · rfl
  cases hs : task.state with
  | ready => exact absurd hs hstate
  | running =>
      refine ⟨((store.setState id .ready).enqueue .ready id).2, ?_, ?_⟩
      · simp only [fileOutgoing, hget, hs]
      · have hfiled : FiledOutgoing store id task
            ((store.setState id task.state.destination.state).enqueue task.state.destination id).2 := by
          refine filedOutgoing_enqueue (h.setState id _) hqueue rfl (fun id' => ?_)
            fun kind => queue_setState store id _ kind
          rw [get?_setState]
          split
          · next heq => rw [heq, hget, Option.map_some]
          · rfl
        rwa [hs] at hfiled
  | blocked =>
      refine ⟨(store.enqueue .wait id).2, ?_, ?_⟩
      · simp only [fileOutgoing, hget, hs]
      · have hfiled := hkeep (by rw [hs]; rfl)
        rwa [hs] at hfiled
  | exited =>
      refine ⟨(store.enqueue .zombie id).2, ?_, ?_⟩
      · simp only [fileOutgoing, hget, hs]
      · have hfiled := hkeep (by rw [hs]; rfl)
        rwa [hs] at hfiled

/-- The task that was loose is in its queue now. -/
theorem FiledOutgoing.filed {store store' : TaskStore} {loose : Set TaskId} {id : TaskId}
    {task : Task} (h : FiledOutgoing store id task store') (hstore : store.Filed loose) :
    store'.Filed (loose \ {id}) :=
  hstore.replace_queued h.linked id task.filed h.get rfl rfl

/-! ## Scheduling -/

section

variable {P : Type} [Platform P] {s : Scheduler}

theorem schedule_of_empty (hready : s.store.ready.front? = none) (hw : P) :
    ∃ hw', s.schedule hw = (.ok .stay, s, hw') := by
  cases hcurrent : s.current with
  | none =>
      have hdequeue : s.store.dequeue .ready = (none, s.store) := dequeue_of_empty hready
      exact ⟨_, by rw [schedule, hcurrent, installHead, hdequeue]⟩
  | some prev => exact ⟨_, by rw [schedule, hcurrent, hready]⟩

/-- With nobody running, the head is installed. -/
theorem schedule_of_idle (hcurrent : s.current = none) {next : TaskId}
    (hfront : s.store.ready.front? = some next) (hw : P) :
    ∃ hw', s.schedule hw = (.ok (.installed next), ⟨s.store.dispatch next, some next⟩, hw') := by
  have hdequeue : s.store.dequeue .ready = (some next, s.store.detach .ready next) :=
    dequeue_of_front? hfront
  refine ⟨resume (Platform.timerDisable (Platform.irqDisable hw).2) (Platform.irqDisable hw).1, ?_⟩
  rw [schedule, hcurrent, installHead, hdequeue]
  rfl

/-- With a task running, that one is filed and the head switched to. -/
theorem schedule_of_current (h : s.store.Linked) {prev next : TaskId} {old : Task}
    (hcurrent : s.current = some prev) (hold : s.store.get? prev = some old)
    (hqueue : old.queue = none) (hstate : old.state ≠ .ready)
    (hfront : s.store.ready.front? = some next) (hw : P) :
    ∃ store decision hw', fileOutgoing s.store prev = .ok store ∧
      FiledOutgoing s.store prev old store ∧ next ≠ prev ∧ next ∈ (store.queue .ready).ids ∧
      s.schedule hw = (.ok (.switch decision), ⟨store.dispatch next, some next⟩, hw') ∧
      decision.incoming = next := by
  have hmem : next ∈ (s.store.queue .ready).ids := mem_of_front? hfront
  obtain ⟨new, hnew, hready⟩ := (h.mem_queue .ready next).1 hmem
  -- The head is on a queue, and the running task is on none.
  have hne : next ≠ prev := by
    rintro rfl
    cases hold.symm.trans hnew
    cases hqueue.symm.trans hready
  obtain ⟨store, hfile, filed⟩ := fileOutgoing_filed h hold hqueue hstate
  -- The outgoing task joins behind everyone, so the head is still there.
  have hstill : next ∈ (store.queue .ready).ids := by
    rw [filed.queues]
    exact List.mem_append_left _ hmem
  have hnext := (filed.get next).trans ((if_neg hne).trans hnew)
  have hstore : ((store.remove .ready next).2).setState next .running = store.dispatch next := by
    rw [remove_of_mem hstill]
    rfl
  have hincoming := (get?_dispatch hnext next).trans (if_pos rfl)
  have houtgoing := (get?_dispatch hnext prev).trans
    ((if_neg hne.symm).trans ((filed.get prev).trans (if_pos rfl)))
  refine ⟨store, ⟨prev, next, old.context, new.context, (Platform.irqDisable hw).1⟩,
    Platform.timerEnable (Platform.timerDisable (Platform.irqDisable hw).2), hfile, filed, hne,
    hstill, ?_, rfl⟩
  simp only [schedule, hcurrent, hfront, if_neg hne, hfile, switchTo, hstore, houtgoing, hincoming]
  rfl

/-- Scheduling never fails. -/
theorem schedule_settled (h : s.Settled) (hw : P) :
    ∃ outcome s' hw', s.schedule hw = (.ok outcome, s', hw') ∧ s'.Settled ∧
      s'.store.nextId = s.store.nextId := by
  cases hfront : s.store.ready.front? with
  | none =>
      obtain ⟨hw', heq⟩ := schedule_of_empty hfront hw
      exact ⟨.stay, s, hw', heq, h, rfl⟩
  | some next =>
      cases hcurrent : s.current with
      | none =>
          obtain ⟨hw', heq⟩ := schedule_of_idle hcurrent hfront hw
          exact ⟨_, _, hw', heq, settled_dispatch (h.filed_none hcurrent) (mem_of_front? hfront),
            nextId_dispatch s.store next⟩
      | some prev =>
          obtain ⟨old, hold, hqueue, hstate⟩ := h.get?_current hcurrent
          obtain ⟨store, decision, hw', -, filed, -, hstill, heq, -⟩ :=
            schedule_of_current h.filed.linked hcurrent hold hqueue hstate hfront hw
          have hfiled := filed.filed (h.filed_current hcurrent)
          rw [sdiff_self] at hfiled
          exact ⟨_, _, hw', heq, settled_dispatch hfiled hstill,
            (nextId_dispatch store next).trans filed.nextId⟩

theorem tick_settled (h : s.Settled) :
    s.tick.2.Settled ∧ s.tick.2.store.nextId = s.store.nextId := by
  cases htask : s.currentTask? with
  | none =>
      simp only [tick, htask]
      exact ⟨h, trivial⟩
  | some task =>
      simp only [tick, htask]
      exact ⟨h.modify task.id (fun _ => rfl) (fun _ => rfl) fun _ => rfl, rfl⟩

/-! ## Terminating, blocking and waking -/

/-- What `lookup?` finds is live; it is queued unless it is the running task. -/
theorem get?_of_lookup? {id : TaskId} {task : Task} (hfound : s.lookup? id = some task) :
    s.store.get? id = some task := by
  rw [lookup?, findQueued?, Option.or_eq_some_iff] at hfound
  rcases hfound with hfound | ⟨-, hfound⟩
  · exact (Option.filter_eq_some_iff.1 hfound).1
  · split at hfound
    · exact hfound
    · cases hfound

/-- Filing a task that is not running leaves a settled scheduler. -/
theorem file_settled (h : s.Settled) (kind : QueueKind) {id : TaskId} {task : Task}
    (hget : s.store.get? id = some task) (hother : s.current ≠ some id) :
    Settled { s with store := ((s.store.setState id kind.state).enqueue kind id).2 } := by
  have hget' := get?_setState_self hget kind.state
  refine h.of_store ?_ ?_
  · have hfiled := h.filed.setState_enqueue kind hget
    have hout : id ∉ {id' | s.current = some id'} := hother
    rwa [Set.sdiff_singleton_eq_self hout] at hfiled
  · intro id' hcurrent
    have hne : id' ≠ id := by
      rintro rfl
      exact hother hcurrent
    rw [get?_enqueue kind hget', if_neg hne, get?_setState, if_neg hne]

/-- Terminating fails only where no task is found, and then changes nothing. -/
theorem terminate_settled (h : s.Settled) (id : TaskId) (hw : P) :
    s.terminate id hw = (.error (.notFound id), s, hw) ∨
    ∃ termination s' hw', s.terminate id hw = (.ok termination, s', hw') ∧ s'.Settled ∧
      s'.store.nextId = s.store.nextId := by
  cases hfound : s.lookup? id with
  | none =>
      refine Or.inl ?_
      simp only [terminate, hfound]
  | some task =>
      have hget := get?_of_lookup? hfound
      refine Or.inr ?_
      by_cases hcurrent : s.current = some id
      -- The running task is marked and scheduled away, any other one is filed at once.
      · have hexited := h.setState hcurrent .exited (by simp)
        obtain ⟨outcome, s', hw', hschedule, hsettled, hnext⟩ := schedule_settled hexited hw
        refine ⟨.rescheduled outcome, s', hw', ?_, hsettled, hnext⟩
        simp only [terminate, hfound, if_pos hcurrent, hschedule]
        rfl
      · refine ⟨.filed, _, hw, ?_, file_settled h .zombie hget hcurrent, nextId_enqueue _ _ _⟩
        simp only [terminate, hfound, if_neg hcurrent]
        rfl

/-- Exiting succeeds whenever a task is running. -/
theorem exit_settled (h : s.Settled) (hw : P) :
    s.exit hw = (.error .noCurrentTask, s, hw) ∨
    (∃ id, s.exit hw = (.error (.notFound id), s, hw)) ∨
    ∃ outcome s' hw', s.exit hw = (.ok outcome, s', hw') ∧ s'.Settled ∧
      s'.store.nextId = s.store.nextId := by
  cases hcurrent : s.current with
  | none =>
      refine Or.inl ?_
      simp only [exit, hcurrent]
  | some id =>
      refine Or.inr ?_
      rcases terminate_settled h id hw with herror | ⟨termination, s', hw', hok, hsettled, hnext⟩
      · refine Or.inl ⟨id, ?_⟩
        simp only [exit, hcurrent, herror]
        rfl
      · refine Or.inr ⟨termination.outcome, s', hw', ?_, hsettled, hnext⟩
        simp only [exit, hcurrent, hok]
        rfl

theorem blockCurrent_settled (h : s.Settled) (hw : P) :
    s.blockCurrent hw = (.error .noCurrentTask, s, hw) ∨
    ∃ outcome s' hw', s.blockCurrent hw = (.ok outcome, s', hw') ∧ s'.Settled ∧
      s'.store.nextId = s.store.nextId := by
  cases hcurrent : s.current with
  | none =>
      refine Or.inl ?_
      simp only [blockCurrent, hcurrent]
  | some id =>
      have hblocked := h.setState hcurrent .blocked (by simp)
      obtain ⟨outcome, s', hw', hschedule, hsettled, hnext⟩ := schedule_settled hblocked hw
      refine Or.inr ⟨outcome, s', hw', ?_, hsettled, hnext⟩
      rw [← hschedule]
      simp only [blockCurrent, hcurrent]

theorem wake_settled (h : s.Settled) (id : TaskId) :
    s.wake id = (.error (.notFound id), s) ∨
    ∃ s', s.wake id = (.ok (), s') ∧ s'.Settled ∧ s'.store.nextId = s.store.nextId := by
  cases hget : s.store.get? id with
  | none =>
      refine Or.inl ?_
      simp only [wake, hget]
  | some task =>
      by_cases hstate : task.state = .blocked
      · refine Or.inr ?_
        -- A task that blocked and was not switched away yet simply goes on.
        by_cases hcurrent : s.current = some id
        · refine ⟨_, ?_, h.setState hcurrent .running (by simp), rfl⟩
          simp only [wake, hget, hstate, hcurrent, ne_eq, not_true_eq_false, if_false, if_true]
        · refine ⟨_, ?_, file_settled h .ready hget hcurrent, nextId_enqueue _ _ _⟩
          simp only [wake, hget, hstate, if_neg hcurrent, ne_eq, not_true_eq_false, if_false]
          rfl
      · refine Or.inl ?_
        simp only [wake, hget, ne_eq, hstate, not_false_eq_true, if_true]

/-! ## Adopting -/

/-- What an adoption does to the running task before it is filed. -/
def Outgoing.leave : Outgoing → Task → Task
  | keep, task => task
  | retire, task => { task with state := .exited }

/-- The store in which the running task is filed when it makes way. -/
def Outgoing.mark : Outgoing → TaskStore → TaskId → TaskStore
  | keep, store, _ => store
  | retire, store, prev => store.setState prev .exited

theorem adopt_of_idle (hcurrent : s.current = none) {id : TaskId}
    (hmem : id ∈ (s.store.queue .ready).ids) (mode : Outgoing) :
    s.adopt id mode = (.ok (), ⟨s.store.dispatch id, some id⟩) := by
  simp only [adopt, remove_of_mem hmem, hcurrent]
  rfl

/-- With a task running, that one is filed after the adopted task was taken off its queue. -/
theorem adopt_of_current (h : s.store.Linked) {prev id : TaskId} {old : Task}
    (hcurrent : s.current = some prev) (hold : s.store.get? prev = some old)
    (hqueue : old.queue = none) (hstate : old.state ≠ .ready)
    (hmem : id ∈ (s.store.queue .ready).ids) (mode : Outgoing) :
    ∃ store, fileOutgoing (mode.mark (s.store.detach .ready id) prev) prev = .ok store ∧
      FiledOutgoing (s.store.detach .ready id) prev (mode.leave old) store ∧ id ≠ prev ∧
      s.adopt id mode = (.ok (), ⟨store.setState id .running, some id⟩) := by
  obtain ⟨new, hnew, hready⟩ := (h.mem_queue .ready id).1 hmem
  have hne : id ≠ prev := by
    rintro rfl
    cases hold.symm.trans hnew
    cases hqueue.symm.trans hready
  have hremove := remove_of_mem hmem
  have hlinked := h.detach hmem
  have hold' := ((get?_detach .ready hnew prev).trans (if_neg hne.symm)).trans hold
  cases mode with
  | keep =>
      obtain ⟨store, hfile, filed⟩ := fileOutgoing_filed hlinked hold' hqueue hstate
      refine ⟨store, hfile, filed, hne, ?_⟩
      simp only [adopt, hremove, hcurrent, hfile]
  | retire =>
      obtain ⟨store, hfile, filed⟩ := fileOutgoing_filed (hlinked.setState prev .exited)
        (get?_setState_self hold' .exited) hqueue (by simp)
      refine ⟨store, hfile, ⟨filed.linked, filed.nextId, fun id' => ?_, fun kind => ?_⟩, hne, ?_⟩
      · rw [filed.get, get?_setState]
        split <;> rfl
      · rw [filed.queues, queue_setState]
        rfl
      · simp only [adopt, hremove, hcurrent, hfile]

/-- A ready task is always adopted: the running task can be filed in both modes. -/
theorem adopt_of_ready (h : s.Settled) {id : TaskId} (hmem : id ∈ (s.store.queue .ready).ids)
    (mode : Outgoing) :
    ∃ s', s.adopt id mode = (.ok (), s') ∧ s'.Settled ∧ s'.store.nextId = s.store.nextId := by
  cases hcurrent : s.current with
  | none =>
      exact ⟨_, adopt_of_idle hcurrent hmem mode, settled_dispatch (h.filed_none hcurrent) hmem,
        nextId_dispatch s.store id⟩
  | some prev =>
      obtain ⟨old, hold, hqueue, hstate⟩ := h.get?_current hcurrent
      obtain ⟨store, -, filed, hne, heq⟩ :=
        adopt_of_current h.filed.linked hcurrent hold hqueue hstate hmem mode
      obtain ⟨task, hget, -, -⟩ := h.filed.get?_of_mem hmem
      -- Filing the one leaves the other as the only loose task.
      have hfiled := filed.filed ((h.filed_current hcurrent).detach hmem)
      rw [Set.insert_sdiff_of_notMem _ (by simpa using hne), sdiff_self] at hfiled
      have hnew := (filed.get id).trans ((if_neg hne).trans (get?_detach_self .ready hget))
      refine ⟨_, heq, settled_of_filed ?_ (get?_setState_self hnew .running) (by simp),
        filed.nextId.trans (nextId_detach s.store .ready id)⟩
      rw [← insert_empty_eq id]
      exact hfiled.setState (Set.mem_insert id _) .running

theorem adopt_settled (h : s.Settled) (id : TaskId) (mode : Outgoing) :
    s.adopt id mode = (.error (.notFound id), s) ∨
    ∃ s', s.adopt id mode = (.ok (), s') ∧ s'.Settled ∧ s'.store.nextId = s.store.nextId := by
  by_cases hmem : id ∈ (s.store.queue .ready).ids
  · exact Or.inr (adopt_of_ready h hmem mode)
  · refine Or.inl ?_
    simp only [adopt, remove_of_not_mem hmem]

end

/-! ## Creating tasks -/

section

variable {F P S : Type} [FrameSource F] [Platform P] [ImageSource S] {s : Scheduler}

/-- Taking in a fresh task does not touch the running one. -/
theorem enroll_settled (h : s.Settled) {task : Task} (hid : task.id = ⟨s.store.nextId⟩)
    (hstate : task.state = .ready) (hqueue : task.queue = none) :
    Settled { s with store := ((s.store.enroll task).enqueue .ready ⟨s.store.nextId⟩).2 } := by
  have hget := get?_enroll_self h.filed.linked hid
  refine h.of_store (h.filed.enroll hid hstate hqueue) fun id hcurrent => ?_
  have hne : id ≠ ⟨s.store.nextId⟩ := by
    rintro rfl
    obtain ⟨old, hold, -⟩ := h.get?_current hcurrent
    exact h.filed.linked.get?_nextId old hold
  rw [get?_enqueue .ready hget, if_neg hne, get?_enroll h.filed.linked hid, if_neg hne]

/-- Creating a task hands out the next number, or fails and changes nothing. -/
theorem createTask_settled (h : s.Settled) (mem : Memory F) (entry : VirtAddr) (imageSize : Nat) :
    (∃ e mem', s.createTask mem entry imageSize = (.error e, s, mem')) ∨
    ∃ s' mem', s.createTask mem entry imageSize = (.ok ⟨s.store.nextId⟩, s', mem') ∧ s'.Settled ∧
      s'.store.nextId = s.store.nextId + 1 ∧ s'.current = s.current ∧
      ⟨s.store.nextId⟩ ∈ (s'.store.queue .ready).ids := by
  rcases create_cases s.store mem entry imageSize with
    ⟨e, mem', hcreate⟩ | ⟨task, mem', hid, hstate, hqueue, hcreate⟩
  · refine Or.inl ⟨e, mem', ?_⟩
    simp only [createTask, hcreate]
  · have hget := get?_enroll_self h.filed.linked hid
    have hsettled := enroll_settled h hid hstate hqueue
    refine Or.inr ⟨_, mem', ?_, hsettled, nextId_enqueue (s.store.enroll task) .ready _, rfl, ?_⟩
    · simp only [createTask, hcreate]
    · rw [hsettled.filed.linked.mem_queue]
      exact ⟨{ task with queue := some .ready }, get?_enqueue_self .ready hget, rfl⟩

/-- The idle task, created while nothing runs, becomes the running task. -/
theorem init_settled (h : s.Settled) (hcurrent : s.current = none) (mem : Memory F)
    (entry : VirtAddr) :
    (∃ e mem', s.init mem entry = (.error e, s, mem')) ∨
    ∃ s' mem', s.init mem entry = (.ok ⟨s.store.nextId⟩, s', mem') ∧ s'.Settled ∧
      s'.store.nextId = s.store.nextId + 1 := by
  rcases create_cases s.store mem entry pageSize with
    ⟨e, mem', hcreate⟩ | ⟨task, mem', hid, hstate, hqueue, hcreate⟩
  · refine Or.inl ⟨e, mem', ?_⟩
    simp only [init, hcreate]
  · have hget := get?_enroll_self h.filed.linked hid
    have hfiled := (h.filed_none hcurrent).enroll hid hstate hqueue
    have hget' := get?_enqueue_self .ready hget
    have hmem : (⟨s.store.nextId⟩ : TaskId) ∈
        (((s.store.enroll task).enqueue .ready ⟨s.store.nextId⟩).2.queue .ready).ids :=
      (hfiled.linked.mem_queue_iff hget' .ready).2 rfl
    refine Or.inr ⟨_, mem', ?_, settled_dispatch hfiled hmem, ?_⟩
    · simp only [init, hcreate, remove_of_mem hmem]
      rfl
    · rw [nextId_dispatch, nextId_enqueue]
      rfl

/-! ## Reaping -/

/-- `Buried store mem ids store' mem'` says that the zombies `ids` left the store one after
    the other, each giving its stacks back. -/
inductive Buried : TaskStore → Memory F → List TaskId → TaskStore → Memory F → Prop
  | nil {store : TaskStore} {mem : Memory F} : Buried store mem [] store mem
  | cons {store store' : TaskStore} {mem mem' : Memory F} {id : TaskId} {task : Task}
      {ids : List TaskId} (zombie : id ∈ (store.queue .zombie).ids)
      (get : store.get? id = some task) (rest : Buried (store.bury id) (task.release mem) ids store' mem') :
      Buried store mem (id :: ids) store' mem'

theorem reapZombies_buried (n : Nat) {store : TaskStore} (h : store.Linked) (mem : Memory F) :
    Buried store mem (reapZombies store mem n).1 (reapZombies store mem n).2.1
      (reapZombies store mem n).2.2 := by
  -- On the bound; a queue that is empty ends the pass before it is reached.
  induction n generalizing store mem with
  | zero => exact .nil
  | succ n ih =>
      cases hfront : (store.queue .zombie).front? with
      | none =>
          simp only [reapZombies, dequeue_of_empty hfront]
          exact .nil
      | some id =>
          have hmem := mem_of_front? hfront
          obtain ⟨task, hget, -⟩ := (h.mem_queue .zombie id).1 hmem
          rw [reapZombies, dequeue_of_front? hfront]
          dsimp only
          rw [take_of_get? (get?_detach_self .zombie hget)]
          exact .cons hmem hget (ih (h.bury hmem) (task.release mem))

/-- Every zombie that is dropped was loose for a moment and is gone then. -/
theorem Buried.filed {loose : Set TaskId} {store store' : TaskStore} {mem mem' : Memory F}
    {ids : List TaskId} (buried : Buried store mem ids store' mem') (h : store.Filed loose) :
    store'.Filed loose ∧ store'.nextId = store.nextId ∧
      ∀ id ∈ loose, store'.get? id = store.get? id := by
  induction buried with
  | nil => exact ⟨h, rfl, fun _ _ => rfl⟩
  | cons zombie get rest ih =>
      have hout := h.not_loose_of_mem zombie
      have hfiled := (h.detach zombie).take (get?_detach_self .zombie get)
      rw [Set.insert_sdiff_of_mem _ (Set.mem_singleton _), Set.sdiff_singleton_eq_self hout] at hfiled
      obtain ⟨hrest, hnext, hkeep⟩ := ih hfiled
      refine ⟨hrest, hnext.trans (nextId_bury _ _), fun id' hid' => ?_⟩
      have hkept := hkeep id' hid'
      rw [get?_bury get, if_neg (by rintro rfl; exact hout hid')] at hkept
      exact hkept

theorem reap_settled (h : s.Settled) (mem : Memory F) :
    (s.reap mem).2.1.Settled ∧ (s.reap mem).2.1.store.nextId = s.store.nextId := by
  obtain ⟨hfiled, hnext, hkeep⟩ :=
    (reapZombies_buried s.store.zombie.length h.filed.linked mem).filed h.filed
  exact ⟨h.of_store hfiled hkeep, hnext⟩

end

end Scheduler
end TaskKernel
