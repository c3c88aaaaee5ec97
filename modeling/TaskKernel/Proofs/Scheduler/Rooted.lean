/-
  TaskKernel.Proofs.Scheduler.Rooted

  The table word in the context of a task is the root of the task's own space, from the
  moment the task is built for as long as it lives. Moving tasks between queues and states
  touches neither; so this holds of the tasks of any scheduler, whatever else is wrong
  with it, and every request keeps it.
-/
import TaskKernel.Proofs.Scheduler.Requests
import TaskKernel.Proofs.Task.Links

namespace TaskKernel

/-! ## Tasks -/

/-- The context of the task loads the table of the task's own space. -/
def Task.Rooted (task : Task) : Prop := task.pageTable = task.space.root

/-- A task that was built starts at its entry, on the fixed stack and on its own table. -/
theorem Task.context_of_build {F : Type} [FrameSource F] {mem mem' : Memory F} {id : TaskId}
    {entry : VirtAddr} {imageSize : Nat} {task : Task}
    (h : Task.build mem id entry imageSize = (.ok task, mem')) :
    task.context = .initial entry task.space.root := by
  rw [Task.build] at h
  split at h
  · cases h
  · dsimp only at h
    split at h
    · cases h
    · split at h
      · cases h
      · cases h
        rfl

/-- The context of a new task is set up with the root of the space that was just made. -/
theorem Task.rooted_of_build {F : Type} [FrameSource F] {mem mem' : Memory F} {id : TaskId}
    {entry : VirtAddr} {imageSize : Nat} {task : Task}
    (h : Task.build mem id entry imageSize = (.ok task, mem')) : task.Rooted := by
  rw [Rooted, pageTable, context_of_build h]
  rfl

/-! ## Stores -/

namespace TaskStore

/-- Every live task is on its own table. -/
def Rooted (s : TaskStore) : Prop := ∀ task ∈ s.tasks, task.Rooted

theorem rooted_empty : Rooted .empty := fun _ hmem => absurd hmem List.not_mem_nil

namespace Rooted

variable {s : TaskStore}

/-- Only the tasks count, so a store keeps the property when tasks leave it. -/
theorem of_subset (h : s.Rooted) {s' : TaskStore} (hsubset : s'.tasks ⊆ s.tasks) : s'.Rooted :=
  fun task hmem => h task (hsubset hmem)

/-- A change to one task matters only if it touches that task's context or space. -/
theorem modify (h : s.Rooted) (id : TaskId) {f : Task → Task}
    (hf : ∀ task, task.Rooted → (f task).Rooted) : (s.modify id f).Rooted := by
  intro task hmem
  obtain ⟨old, hold, rfl⟩ := List.mem_map.1 hmem
  split
  · exact hf old (h old hold)
  · exact h old hold

/-- The state of a task is none of the two words that are compared. -/
theorem setState (h : s.Rooted) (id : TaskId) (state : TaskState) : (s.setState id state).Rooted :=
  h.modify id fun _ hold => hold

theorem setQueueOf (h : s.Rooted) (id : TaskId) (queue : Option QueueKind) :
    (s.setQueueOf id queue).Rooted :=
  h.modify id fun _ hold => hold

theorem setQueue (h : s.Rooted) (kind : QueueKind) (q : TaskQueue) : (s.setQueue kind q).Rooted := by
  cases kind <;> exact h

/-- Taking a task off its queue leaves all tasks in the store. -/
theorem unlink (h : s.Rooted) (queue : Option QueueKind) (id : TaskId) :
    (s.unlink queue id).Rooted := by
  refine h.of_subset ?_
  rw [tasks_unlink]
  exact List.Subset.refl _

/-- A task that moves to another queue is unlinked, appended and marked; each of the three
    keeps the tables. -/
theorem enqueue (h : s.Rooted) (kind : QueueKind) (id : TaskId) : (s.enqueue kind id).2.Rooted := by
  rw [TaskStore.enqueue]
  split
  · exact h
  · exact ((h.unlink _ id).setQueue kind _).setQueueOf id _

theorem dequeue (h : s.Rooted) (kind : QueueKind) : (s.dequeue kind).2.Rooted := by
  rw [TaskStore.dequeue]
  split
  · exact h
  · exact (h.setQueue kind _).setQueueOf _ none

theorem remove (h : s.Rooted) (kind : QueueKind) (id : TaskId) : (s.remove kind id).2.Rooted := by
  rw [TaskStore.remove]
  split
  · exact (h.setQueue kind _).setQueueOf id none
  · exact h

/-- The one way for a task to leave the store; nobody else is changed by it. -/
theorem take (h : s.Rooted) (id : TaskId) : (s.take id).2.Rooted := by
  rw [TaskStore.take]
  split
  · exact h
  · exact (h.unlink _ id).of_subset List.filter_sublist.subset

/-- The only task that comes in anew is on its own table from the start; when it cannot be
    built the store is as it was. -/
theorem create (h : s.Rooted) {F : Type} [FrameSource F] (mem : Memory F) (entry : VirtAddr)
    (imageSize : Nat) : (s.create mem entry imageSize).2.1.Rooted := by
  rw [TaskStore.create]
  dsimp only
  split
  · exact h
  · next task mem' hbuild =>
      refine Rooted.enqueue (fun other hmem => ?_) .ready _
      rcases List.mem_append.1 hmem with hold | hnew
      · exact h other hold
      · rw [List.mem_singleton.1 hnew]
        exact Task.rooted_of_build hbuild

end Rooted

end TaskStore

/-! ## Requests -/

namespace Scheduler

open TaskStore

section

variable {P : Type} [Platform P] {s : Scheduler}

/-- Filing the outgoing task changes its state and its queue, whichever of the four cases
    applies. -/
theorem rooted_fileOutgoing {store store' : TaskStore} (h : store.Rooted) {id : TaskId}
    (hfile : fileOutgoing store id = .ok store') : store'.Rooted := by
  simp only [fileOutgoing] at hfile
  split at hfile
  · cases hfile
  · split at hfile
    · cases hfile
      exact (h.setState id .ready).enqueue .ready id
    · cases hfile
      exact h.enqueue .wait id
    · cases hfile
      exact h.enqueue .zombie id
    · split at hfile
      · cases hfile
        exact h
      · cases hfile

/-- With no task running the head of the ready queue is dispatched. -/
theorem rooted_installHead (h : s.store.Rooted) : s.installHead.2.store.Rooted := by
  have hdequeue := h.dequeue .ready
  rw [installHead]
  split
  · exact h
  · next next store heq =>
      rw [heq] at hdequeue
      exact hdequeue.setState next .running

/-- Naming the two contexts of a switch reads the store; it is the dispatch of the incoming
    task that changes it. -/
theorem rooted_switchTo {store : TaskStore} (h : store.Rooted) (prev next : TaskId)
    (irqState : Word) : (switchTo store prev next irqState).2.store.Rooted := by
  have hnext := (h.remove .ready next).setState next .running
  rw [switchTo]
  split <;> exact hnext

/-- A decision files the outgoing task and dispatches the next one, or leaves the store alone. -/
theorem rooted_schedule (h : s.store.Rooted) (hw : P) : (s.schedule hw).2.1.store.Rooted := by
  rw [schedule]
  dsimp only
  split
  · exact rooted_installHead h
  · next prev _ =>
      split
      · exact h
      · next next _ =>
          split
          · exact h
          · split
            · exact h
            · next store hfile =>
                have hswitch := rooted_switchTo (rooted_fileOutgoing h hfile) prev next
                  (Platform.irqDisable hw).1
                split
                · next heq =>
                    rw [heq] at hswitch
                    exact hswitch
                · next heq =>
                    rw [heq] at hswitch
                    exact hswitch

theorem rooted_tick (h : s.store.Rooted) : s.tick.2.store.Rooted := by
  rw [tick]
  split
  · exact h
  · exact Rooted.modify h _ fun _ hold => hold

/-- A task that is terminated is marked first, then filed at once or by the decision that
    follows. -/
theorem rooted_terminate (h : s.store.Rooted) (id : TaskId) (hw : P) :
    (s.terminate id hw).2.1.store.Rooted := by
  have hexited := h.setState id .exited
  rw [terminate]
  split
  · exact h
  · dsimp only
    split
    · exact rooted_schedule hexited hw
    · exact hexited.enqueue .zombie id

theorem rooted_exit (h : s.store.Rooted) (hw : P) : (s.exit hw).2.1.store.Rooted := by
  rw [exit]
  split
  · exact h
  · next id _ => exact rooted_terminate h id hw

theorem rooted_blockCurrent (h : s.store.Rooted) (hw : P) :
    (s.blockCurrent hw).2.1.store.Rooted := by
  rw [blockCurrent]
  split
  · exact h
  · next id _ => exact rooted_schedule (h.setState id .blocked) hw

/-- A task that is woken is marked, and queued unless it is still the running one. -/
theorem rooted_wake (h : s.store.Rooted) (id : TaskId) : (s.wake id).2.store.Rooted := by
  rw [wake]
  split
  · exact h
  · split
    · exact h
    · split
      · exact h.setState id .running
      · exact (h.setState id .ready).enqueue .ready id

/-- An adoption that fails puts both tasks back, and that too is done by moving them between
    queues and states. -/
theorem rooted_adopt (h : s.store.Rooted) (id : TaskId) (mode : Outgoing) :
    (s.adopt id mode).2.store.Rooted := by
  have hremove := h.remove .ready id
  rw [adopt]
  split
  · exact h
  · next store heq =>
      rw [heq] at hremove
      split
      · exact hremove.setState id .running
      · next prev _ =>
          -- Both ways of retiring go on alike.
          have hexited := hremove.setState prev .exited
          cases mode
          all_goals
            dsimp only
            split
            · next hfile => exact (rooted_fileOutgoing (by assumption) hfile).setState id .running
            · split
              · exact Rooted.enqueue (by assumption) .ready id
              · exact Rooted.enqueue (Rooted.setState (by assumption) prev _) .ready id

end

section

variable {F P S : Type} [FrameSource F] [Platform P] [ImageSource S] {s : Scheduler}

/-- The idle task is created like any other and then dispatched. -/
theorem rooted_init (h : s.store.Rooted) (mem : Memory F) (entry : VirtAddr) :
    (s.init mem entry).2.1.store.Rooted := by
  have hcreate := h.create mem entry pageSize
  rw [init]
  split
  · next heq =>
      rw [heq] at hcreate
      exact hcreate
  · next id store mem' heq =>
      rw [heq] at hcreate
      exact (hcreate.remove .ready id).setState id .running

theorem rooted_createTask (h : s.store.Rooted) (mem : Memory F) (entry : VirtAddr)
    (imageSize : Nat) : (s.createTask mem entry imageSize).2.1.store.Rooted :=
  h.create mem entry imageSize

/-- Entering a task reads its table word for the platform and then adopts the task. -/
theorem rooted_enterTask (h : s.store.Rooted) (hw : P) (id : TaskId) (mode : LaunchMode) :
    (s.enterTask hw id mode).2.1.store.Rooted := by
  have hadopt := rooted_adopt h id mode.outgoing
  rw [enterTask]
  split
  · exact h
  · dsimp only
    split
    · next heq =>
        rw [heq] at hadopt
        exact hadopt
    · next heq =>
        rw [heq] at hadopt
        exact hadopt

/-- A launch creates a task and enters it; every earlier way out leaves the store as it was. -/
theorem rooted_prepare (h : s.store.Rooted) (mem : Memory F) (hw : P) (images : S) (name : String)
    (mode : LaunchMode) : (s.prepare mem hw images name mode).2.1.store.Rooted := by
  rw [prepare]
  dsimp only
  split
  · exact h
  · split
    · exact h
    · next image mem₁ _ =>
        have hcreate := rooted_createTask h
          (mem₁.mapRam fun ram => loadImage ram images name image (ImageSource.sizeOf images name))
          (LinearWindow.kernel.toVirt image) (ImageSource.sizeOf images name)
        split
        · next heq =>
            rw [heq] at hcreate
            exact hcreate
        · next id _ _ heq =>
            rw [heq] at hcreate
            exact rooted_enterTask hcreate (Platform.timerDisable hw) id mode

/-- Reaping takes tasks out of the store, one with each pass. -/
theorem rooted_reapZombies {store : TaskStore} (h : store.Rooted) (mem : Memory F) (n : Nat) :
    (reapZombies store mem n).2.1.Rooted := by
  induction n generalizing store mem with
  | zero => exact h
  | succ n ih =>
      have hdequeue := h.dequeue .zombie
      rw [reapZombies]
      split
      · next heq =>
          rw [heq] at hdequeue
          exact hdequeue
      · next id store₁ heq =>
          rw [heq] at hdequeue
          have htake := hdequeue.take id
          split
          · next heq' =>
              rw [heq'] at htake
              exact ih htake mem
          · next task store₂ heq' =>
              rw [heq'] at htake
              exact ih htake (task.release mem)

/-- Whatever is asked of a scheduler, its tasks stay on their own tables. -/
theorem rooted_answer (h : s.store.Rooted) (mem : Memory F) (hw : P) (request : Request S) :
    (s.answer mem hw request).2.1.store.Rooted := by
  cases request with
  | init entry => exact rooted_init h mem entry
  | create entry imageSize => exact rooted_createTask h mem entry imageSize
  | prepare images name mode => exact rooted_prepare h mem hw images name mode
  | schedule => exact rooted_schedule h hw
  | tick => exact rooted_tick h
  | terminate id => exact rooted_terminate h id hw
  | exit => exact rooted_exit h hw
  | blockCurrent => exact rooted_blockCurrent h hw
  | wake id => exact rooted_wake h id
  | adopt id mode => exact rooted_adopt h id mode
  | reap => exact rooted_reapZombies h mem s.store.zombie.length

end

end Scheduler

/-- After any run every task loads the table of its own space when it is switched to. -/
theorem Run.rooted {F P S : Type} [FrameSource F] [Platform P] [ImageSource S] {log : List Answer}
    {s : Scheduler} (run : Run F P S log s) : s.store.Rooted := by
  induction run with
  | nil => exact TaskStore.rooted_empty
  | step run request mem hw admitted ih => exact Scheduler.rooted_answer ih mem hw request

end TaskKernel
