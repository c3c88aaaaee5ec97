/-
  TaskKernel.Proofs.Scheduler.Gates

  The timer and the interrupt mask across a decision of the scheduler. A decision has five ways
  out, and each of them lets the timer through again. All but the switch put the mask back as it
  was; a switch hands the mask word from before to whoever carries it out. Nothing is asked of
  the scheduler but that its queues hold live tasks: the running task may be ready, on a queue or
  gone, and a decision that comes to nothing because of that leaves no trace.
-/
import TaskKernel.Memory.FramePool
import TaskKernel.Proofs.Task.Links
import TaskKernel.Scheduler.Basic

namespace TaskKernel

/-! ## Live numbers through a decision -/

namespace TaskStore

variable {s : TaskStore}

/-- Everyone who is on a queue is live. -/
def QueuedLive (s : TaskStore) : Prop :=
  ∀ kind, ∀ id ∈ (s.queue kind).ids, id ∈ s.liveIds

theorem exists_get?_iff {id : TaskId} : (∃ task, s.get? id = some task) ↔ id ∈ s.liveIds := by
  rw [← Option.isSome_iff_exists, get?_isSome_iff, mem_liveIds]

@[simp] theorem liveIds_setState (s : TaskStore) (id : TaskId) (state : TaskState) :
    (s.setState id state).liveIds = s.liveIds :=
  liveIds_modify s id fun _ => rfl

@[simp] theorem liveIds_enqueue (s : TaskStore) (kind : QueueKind) (id : TaskId) :
    (s.enqueue kind id).2.liveIds = s.liveIds := by
  rw [enqueue]
  cases s.get? id with
  | none => rfl
  | some task => simp

@[simp] theorem liveIds_remove (s : TaskStore) (kind : QueueKind) (id : TaskId) :
    (s.remove kind id).2.liveIds = s.liveIds := by
  rw [remove]
  split
  · simp
  · rfl

/-- The state of a task has no part in who is live and who is queued. -/
theorem QueuedLive.setState (h : s.QueuedLive) (id : TaskId) (state : TaskState) :
    (s.setState id state).QueuedLive := by
  intro kind id' hmem
  rw [queue_setState] at hmem
  rw [liveIds_setState]
  exact h kind id' hmem

end TaskStore

namespace Scheduler

open TaskStore

variable {P : Type} [Platform P]

/-- Only a live task can be filed, and filing drops nobody. -/
theorem liveIds_fileOutgoing {store store' : TaskStore} {id : TaskId}
    (h : fileOutgoing store id = .ok store') :
    id ∈ store.liveIds ∧ store'.liveIds = store.liveIds := by
  cases hget : store.get? id with
  | none => simp [fileOutgoing, hget] at h
  | some task =>
    refine ⟨exists_get?_iff.1 ⟨task, hget⟩, ?_⟩
    simp only [fileOutgoing, hget] at h
    split at h
    · cases h
      simp
    · cases h
      simp
    · cases h
      simp
    · split at h
      · cases h
        rfl
      · cases h

/-! ## Ways out of a decision -/

/-- The platform while a decision is made: timer and interrupts are held back. -/
def heldBack (hw : P) : P := Platform.timerDisable (Platform.irqDisable hw).2

/-- The platform after a decision without a switch. -/
def resumed (hw : P) : P := resume (heldBack hw) (Platform.irqDisable hw).1

/-- How a decision can end. -/
inductive Decided (s : Scheduler) (hw : P) : Except SchedulerError Outcome → Scheduler → P → Prop
  /-- There was nobody to switch to. -/
  | stayed : Decided s hw (.ok .stay) s (resumed hw)
  /-- Nobody was running, and now the head of the ready queue is. -/
  | installed {id : TaskId} {s' : Scheduler} : Decided s hw (.ok (.installed id)) s' (resumed hw)
  /-- The running task could not be filed. -/
  | refused {e : SchedulerError} : Decided s hw (.error e) s (resumed hw)
  /-- The head of the ready queue was no live task. -/
  | lost {id : TaskId} {e : SchedulerError} {s' : Scheduler}
      (queued : id ∈ (s.store.queue .ready).ids) (dead : id ∉ s.store.liveIds) :
      Decided s hw (.error e) s' (resumed hw)
  /-- The head of the ready queue takes over once the switch is carried out. -/
  | switched {switch : Switch} {s' : Scheduler}
      (irqState : switch.irqState = (Platform.irqDisable hw).1) :
      Decided s hw (.ok (.switch switch)) s' (Platform.timerEnable (heldBack hw))

/-- From a live task one can switch to any other live task, and to nobody else. -/
theorem switchTo_cases {store : TaskStore} {prev : TaskId} (hprev : prev ∈ store.liveIds)
    (next : TaskId) (irqState : Word) :
    (∃ switch s', switchTo store prev next irqState = (.ok switch, s') ∧
      switch.irqState = irqState) ∨
    next ∉ store.liveIds ∧ ∃ e s', switchTo store prev next irqState = (.error e, s') := by
  have hids : (((store.remove .ready next).2).setState next .running).liveIds = store.liveIds := by
    rw [liveIds_setState, liveIds_remove]
  obtain ⟨old, hold⟩ := exists_get?_iff.2 (hids ▸ hprev)
  cases hnew : (((store.remove .ready next).2).setState next .running).get? next with
  | none =>
    refine Or.inr ⟨fun hnext => ?_, .invalidState next, _, by simp only [switchTo, hold, hnew]; rfl⟩
    obtain ⟨task, hget⟩ := exists_get?_iff.2 (hids ▸ hnext)
    cases hnew.symm.trans hget
  | some new =>
    exact Or.inl ⟨⟨prev, next, old.context, new.context, irqState⟩, _,
      by simp only [switchTo, hold, hnew]; rfl, rfl⟩

theorem schedule_decided (s : Scheduler) (hw : P) :
    Decided s hw (s.schedule hw).1 (s.schedule hw).2.1 (s.schedule hw).2.2 := by
  cases hcurrent : s.current with
  | none =>
    cases hfront : (s.store.queue .ready).front? with
    | none =>
      simp only [schedule, hcurrent, installHead, dequeue_of_empty hfront]
      exact .stayed
    | some next =>
      simp only [schedule, hcurrent, installHead, dequeue_of_front? hfront]
      exact .installed
  | some prev =>
    cases hfront : s.store.ready.front? with
    | none =>
      simp only [schedule, hcurrent, hfront]
      exact .stayed
    | some next =>
      by_cases hsame : next = prev
      · simp only [schedule, hcurrent, hfront, if_pos hsame]
        exact .stayed
      · cases hfile : fileOutgoing s.store prev with
        | error e =>
          simp only [schedule, hcurrent, hfront, if_neg hsame, hfile]
          exact .refused
        | ok store =>
          obtain ⟨hprev, hids⟩ := liveIds_fileOutgoing hfile
          rcases switchTo_cases (hids ▸ hprev) next (Platform.irqDisable hw).1 with
            ⟨switch, s', hswitch, hirq⟩ | ⟨hdead, e, s', hswitch⟩
          · simp only [schedule, hcurrent, hfront, if_neg hsame, hfile, hswitch]
            exact .switched hirq
          -- The task that was running has been filed by now, and nobody takes over from it.
          · simp only [schedule, hcurrent, hfront, if_neg hsame, hfile, hswitch]
            exact .lost (mem_of_front? hfront) (hids ▸ hdead)

/-- A decision lets timer and interrupts through again, the latter not before a switch. -/
theorem schedule_platform (s : Scheduler) (hw : P) :
    (s.schedule hw).2.2 = resumed hw ∨
      (s.schedule hw).2.2 = Platform.timerEnable (heldBack hw) := by
  have hdecided := s.schedule_decided hw
  generalize s.schedule hw = decision at hdecided ⊢
  obtain ⟨result, s', hw'⟩ := decision
  cases hdecided with
  | stayed | installed | refused | lost => exact Or.inl rfl
  | switched => exact Or.inr rfl

/-! ## Requests that come to a decision -/

/-- The scheduler with one task in another state. -/
def marked (s : Scheduler) (id : TaskId) (state : TaskState) : Scheduler :=
  { s with store := s.store.setState id state }

theorem lookup?_of_current {s : Scheduler} {id : TaskId} (hcurrent : s.current = some id) :
    s.lookup? id = s.store.get? id := by
  rw [lookup?, if_pos hcurrent, findQueued?]
  cases s.store.get? id with
  | none => rfl
  | some task =>
    cases h : (task.queue == some .ready || task.queue == some .wait) <;> simp [Option.filter, h]

/-- Terminating the running task is deciding who comes after it. -/
theorem terminate_of_current {s : Scheduler} {id : TaskId} {task : Task}
    (hcurrent : s.current = some id) (hget : s.store.get? id = some task) (hw : P) :
    s.terminate id hw = ((((s.marked id .exited).schedule hw).1).map .rescheduled,
      ((s.marked id .exited).schedule hw).2) := by
  simp only [terminate, lookup?_of_current hcurrent, hget, if_pos hcurrent]
  rfl

/-- No other task that is terminated concerns the platform. -/
theorem terminate_untouched {s : Scheduler} {id : TaskId}
    (h : s.current = some id → s.store.get? id = none) (hw : P) :
    (s.terminate id hw).2.2 = hw := by
  by_cases hcurrent : s.current = some id
  · simp only [terminate, lookup?_of_current hcurrent, h hcurrent]
  · rw [terminate]
    split
    · rfl
    · rw [if_neg hcurrent]

theorem exit_of_current {s : Scheduler} {id : TaskId} {task : Task}
    (hcurrent : s.current = some id) (hget : s.store.get? id = some task) (hw : P) :
    s.exit hw = (s.marked id .exited).schedule hw := by
  simp only [exit, hcurrent, terminate_of_current hcurrent hget]
  obtain ⟨result, s', hw'⟩ := (s.marked id .exited).schedule hw
  cases result <;> rfl

theorem exit_untouched {s : Scheduler} (h : s.currentTask? = none) (hw : P) :
    (s.exit hw).2.2 = hw := by
  cases hcurrent : s.current with
  | none => simp only [exit, hcurrent]
  | some id =>
    rw [currentTask?, hcurrent] at h
    simp only [exit, hcurrent]
    exact terminate_untouched (fun _ => h) hw

theorem blockCurrent_of_current {s : Scheduler} {id : TaskId} (hcurrent : s.current = some id)
    (hw : P) : s.blockCurrent hw = (s.marked id .blocked).schedule hw := by
  simp only [blockCurrent, hcurrent, marked]

theorem blockCurrent_untouched {s : Scheduler} (h : s.current = none) (hw : P) :
    (s.blockCurrent hw).2.2 = hw := by
  simp only [blockCurrent, h]

/-! ## Gates -/

/-- What a decision owes to the platform that it was made on and, where the processor stays with
    whoever had it, to the scheduler. -/
structure Gated (s : Scheduler) (hw : Recorder)
    (decision : Except SchedulerError Outcome × Scheduler × Recorder) : Prop where
  timer : decision.2.2.timerEnabled = true
  resumed : (∀ switch, decision.1 ≠ .ok (.switch switch)) → decision.2.2.irqMasked = hw.irqMasked
  switched : ∀ switch, decision.1 = .ok (.switch switch) → decision.2.2.irqMasked = true ∧
    (Platform.irqRestore decision.2.2 switch.irqState).irqMasked = hw.irqMasked
  unchanged : decision.1 = .ok .stay ∨ (∃ e, decision.1 = .error e) → decision.2.1 = s

/-- The mask word that masking returns tells whether interrupts were masked. -/
theorem irqMasked_irqRestore (hw hw' : Recorder) :
    (Platform.irqRestore hw' (Platform.irqDisable hw).1).irqMasked = hw.irqMasked := by
  show ((if hw.irqMasked then irqMaskBit else 0) != 0) = hw.irqMasked
  cases hw.irqMasked <;> rfl

theorem schedule_gated (s : Scheduler) (hw : Recorder) (hqueued : s.store.QueuedLive) :
    Gated s hw (s.schedule hw) := by
  have hdecided := s.schedule_decided hw
  have hmask : (resumed hw).irqMasked = hw.irqMasked := irqMasked_irqRestore hw _
  generalize s.schedule hw = decision at hdecided ⊢
  obtain ⟨result, s', hw'⟩ := decision
  cases hdecided with
  | stayed => exact ⟨rfl, fun _ => hmask, by simp, fun _ => rfl⟩
  | installed => exact ⟨rfl, fun _ => hmask, by simp, by simp⟩
  | refused => exact ⟨rfl, fun _ => hmask, by simp, fun _ => rfl⟩
  | lost queued dead => exact absurd (hqueued .ready _ queued) dead
  | @switched switch s' irqState =>
    refine ⟨rfl, fun hnone => absurd rfl (hnone switch), ?_, by simp⟩
    rintro switch ⟨⟩
    rw [irqState]
    exact ⟨rfl, irqMasked_irqRestore hw _⟩

/-- Whoever decides lets the timer through again. Interrupts are masked after a switch only, and
    then its mask word brings back what there was; after any other decision they are as before,
    and so is the scheduler unless a task was installed. Terminating and blocking the running
    task are decisions too, made with that task marked, and exiting is terminating it; where it
    does not come to a decision, the platform is not touched. -/
theorem decisions_keep_gates (s : Scheduler) (hw : Recorder) (hqueued : s.store.QueuedLive) :
    Gated s hw (s.schedule hw) ∧
    (∀ id task, s.current = some id → s.store.get? id = some task →
      s.terminate id hw = (((s.marked id .exited).schedule hw).1.map .rescheduled,
        ((s.marked id .exited).schedule hw).2) ∧
      s.exit hw = (s.marked id .exited).schedule hw ∧
      Gated (s.marked id .exited) hw ((s.marked id .exited).schedule hw)) ∧
    (∀ id, s.current = some id →
      s.blockCurrent hw = (s.marked id .blocked).schedule hw ∧
      Gated (s.marked id .blocked) hw ((s.marked id .blocked).schedule hw)) ∧
    (∀ id, s.current ≠ some id ∨ s.store.get? id = none → (s.terminate id hw).2.2 = hw) ∧
    (s.currentTask? = none → (s.exit hw).2.2 = hw) ∧
    (s.current = none → (s.blockCurrent hw).2.2 = hw) := by
  have hmarked (id : TaskId) (state : TaskState) :
      Gated (s.marked id state) hw ((s.marked id state).schedule hw) :=
    schedule_gated _ hw (hqueued.setState id state)
  refine ⟨schedule_gated s hw hqueued, fun id task hcurrent hget => ?_, fun id hcurrent => ?_,
    fun id hother => ?_, fun h => exit_untouched h hw, fun h => blockCurrent_untouched h hw⟩
  · exact ⟨terminate_of_current hcurrent hget hw, exit_of_current hcurrent hget hw,
      hmarked id .exited⟩
  · exact ⟨blockCurrent_of_current hcurrent hw, hmarked id .blocked⟩
  · exact terminate_untouched (fun hcurrent => hother.resolve_left (not_not_intro hcurrent)) hw

/-- With interrupts masked, the idle task is ready but on no queue while another task waits for
    its turn: the decision fails without a trace. Blocked, the idle task is switched away from. -/
theorem decisions_keep_gates_unqueued :
    let mem : Memory FramePool := ⟨.zero, .ofPages 16⟩
    let s := (((empty.init mem ⟨kernelBase⟩).2.1.createTask mem ⟨kernelBase⟩ pageSize).2.1).marked
      ⟨0⟩ .ready
    let hw : Recorder := { Recorder.new with irqMasked := true, timerEnabled := false }
    s.store.QueuedLive ∧ s.current = some ⟨0⟩ ∧
      (s.schedule hw).1 = .error (.invalidState ⟨0⟩) ∧ (s.schedule hw).2.1 = s ∧
      (s.schedule hw).2.2.irqMasked = true ∧ (s.schedule hw).2.2.timerEnabled = true ∧
      (s.blockCurrent hw).2.1.current = some ⟨1⟩ ∧ (s.blockCurrent hw).2.2.timerEnabled = true := by
  intro mem s hw
  have hqueued : s.store.QueuedLive := by
    intro kind
    cases kind <;> decide +kernel
  have hcurrent : s.current = some ⟨0⟩ := by decide +kernel
  have hrefused : (s.schedule hw).1 = .error (.invalidState ⟨0⟩) := by decide +kernel
  obtain ⟨hgated, -, hblock, -⟩ := decisions_keep_gates s hw hqueued
  obtain ⟨hblocked, hgated'⟩ := hblock ⟨0⟩ hcurrent
  refine ⟨hqueued, hcurrent, hrefused, hgated.unchanged (Or.inr ⟨_, hrefused⟩), ?_, hgated.timer,
    by decide +kernel, ?_⟩
  · exact hgated.resumed fun switch hswitch => by cases hrefused.symm.trans hswitch
  · rw [hblocked]
    exact hgated'.timer

end Scheduler
end TaskKernel
