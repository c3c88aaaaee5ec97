/-
  TaskKernel.Proofs.Kernel.Reachable

  The kernels that can come to be. From a kernel without tasks every entry point may be used
  in any order, whoever holds the lock may ask the scheduler for anything, and the rest of the
  machine changes as it likes; the scheduler stays settled throughout.
-/
import TaskKernel.Kernel.SystemCall
import TaskKernel.Proofs.Scheduler.Placement
import TaskKernel.Proofs.Task.Handlers

namespace TaskKernel

/-! ## Changes of one task -/

namespace Scheduler

/-- A change matters only where it is made. -/
theorem modify_congr {s : Scheduler} (h : s.store.Linked) {id : TaskId} {task : Task}
    (hget : s.store.get? id = some task) {f g : Task → Task} (hfg : f task = g task) :
    s.modify id f = s.modify id g := by
  have htasks : s.store.modify id f = s.store.modify id g := by
    refine congrArg (fun tasks => { s.store with tasks }) ?_
    apply List.map_congr_left
    intro t hmem
    split
    · next hid =>
      -- There is one task with this number.
      have hother := h.get?_of_mem hmem
      rw [beq_iff_eq.1 hid, hget] at hother
      cases hother
      exact hfg
    · rfl
  rw [modify, modify, htasks]

/-- Signals and address space are no concern of the scheduler. -/
theorem Settled.store_back {s : Scheduler} (h : s.Settled) {id : TaskId} {task : Task}
    (hget : s.store.get? id = some task) (signals : SignalState) (space : AddressSpace) :
    (s.modify id fun _ => { task with signals, space }).Settled := by
  have hsame : (s.modify id fun _ => { task with signals, space }) =
      s.modify id fun t => { t with signals, space } :=
    modify_congr h.filed.linked hget rfl
  rw [hsame]
  exact h.modify id (fun _ => rfl) (fun _ => rfl) fun _ => rfl

end Scheduler

namespace Kernel

variable {k : Kernel}

/-! ## What an entry point does to the scheduler -/

@[simp] theorem scheduler_irqRestore (k : Kernel) (mask : Word) :
    (k.irqRestore mask).scheduler = k.scheduler := rfl

@[simp] theorem scheduler_print (k : Kernel) : k.print.scheduler = k.scheduler := rfl

@[simp] theorem scheduler_takeHeapTurns (k : Kernel) (n : Nat) :
    (k.takeHeapTurns n).scheduler = k.scheduler := by
  induction n generalizing k with
  | zero => rfl
  | succ n ih => exact ih _

@[simp] theorem scheduler_putMemory (k : Kernel) (memory : Memory LockedHeap) :
    (k.putMemory memory).scheduler = k.scheduler :=
  scheduler_takeHeapTurns _ _

@[simp] theorem scheduler_update {α : Type} (k : Kernel) (f : Scheduler → α × Scheduler) :
    (k.update f).2.scheduler = (f k.scheduler).2 := rfl

@[simp] theorem scheduler_complete (k : Kernel) (result : Except SchedulerError Outcome) :
    (k.complete result).scheduler = k.scheduler := by
  cases result with
  | error e => rfl
  | ok outcome => cases outcome <;> rfl

@[simp] theorem scheduler_printLaunch (k : Kernel) (result : Except LaunchError LaunchTarget) :
    (k.printLaunch result).scheduler = k.scheduler := by
  rw [printLaunch.eq_def]
  split <;> rfl

theorem settled_schedule (h : k.scheduler.Settled) : k.schedule.scheduler.Settled := by
  rw [schedule]
  dsimp only
  rw [scheduler_irqRestore, scheduler_complete]
  exact (h.answered k.memory _ (.schedule : Request Archive) trivial).settled

theorem settled_tick (h : k.scheduler.Settled) : k.tick.scheduler.Settled := by
  have hticked : (k.update Scheduler.tick).2.scheduler.Settled :=
    (Scheduler.tick_settled h).1
  rw [tick]
  split
  · next heq =>
    rw [heq] at hticked
    exact settled_schedule hticked
  · next heq =>
    rw [heq] at hticked
    exact hticked

theorem settled_exit (h : k.scheduler.Settled) : k.exit.scheduler.Settled := by
  rw [exit]
  dsimp only
  rw [scheduler_complete]
  exact (h.answered k.memory _ (.exit : Request Archive) trivial).settled

theorem settled_kill (h : k.scheduler.Settled) (id : TaskId) :
    (k.kill id).2.scheduler.Settled := by
  have hkilled (core : Core KernelLock) : (k.scheduler.terminate id core).2.1.Settled :=
    (h.answered k.memory core (.terminate id : Request Archive) trivial).settled
  rw [kill]
  dsimp only
  rw [scheduler_irqRestore, scheduler_complete, withLock]
  dsimp only
  split
  · exact hkilled _
  · exact hkilled _

theorem settled_blockCurrent (h : k.scheduler.Settled) : k.blockCurrent.scheduler.Settled := by
  rw [blockCurrent]
  dsimp only
  rw [scheduler_irqRestore, scheduler_complete]
  exact (h.answered k.memory _ (.blockCurrent : Request Archive) trivial).settled

theorem settled_wake (h : k.scheduler.Settled) (id : TaskId) :
    (k.wake id).2.scheduler.Settled :=
  (h.answered k.memory k.core (.wake id : Request Archive) trivial).settled

theorem settled_init (h : k.scheduler.Settled) (hidle : k.scheduler.current = none)
    (entry : VirtAddr) : (k.init entry).2.scheduler.Settled := by
  have hinit (memory : Memory LockedHeap) : (k.scheduler.init memory entry).2.1.Settled :=
    (h.answered memory k.core (.init entry : Request Archive) hidle).settled
  rw [init, withLock]
  dsimp only
  split
  · dsimp only
    rw [scheduler_print, scheduler_putMemory]
    exact hinit _
  · dsimp only
    rw [scheduler_putMemory]
    exact hinit _

theorem settled_reap (h : k.scheduler.Settled) : k.reap.2.scheduler.Settled := by
  have hreaped (memory : Memory LockedHeap) : (k.scheduler.reap memory).2.1.Settled :=
    (h.answered memory k.core (.reap : Request Archive) trivial).settled
  have hprint (ids : List TaskId) (k' : Kernel) :
      (ids.foldl (fun k _ => k.print) k').scheduler = k'.scheduler := by
    induction ids generalizing k' with
    | nil => rfl
    | cons id ids ih => exact ih k'.print
  rw [reap, withLock]
  dsimp only
  rw [hprint, scheduler_putMemory]
  exact hreaped _

theorem settled_launch (h : k.scheduler.Settled) (name : String) (mode : LaunchMode) :
    (k.launch name mode).2.scheduler.Settled := by
  rw [launch]
  dsimp only
  split
  · exact h
  · next archive _ =>
    have hlaunched (memory : Memory LockedHeap) (core : Core KernelLock) :
        (k.scheduler.prepare memory core archive name mode).2.1.Settled :=
      (h.answered memory core (.prepare archive name mode) trivial).settled
    rw [withLock]
    dsimp only
    split
    · dsimp only
      rw [scheduler_printLaunch, scheduler_putMemory]
      exact hlaunched _ _
    · rw [scheduler_irqRestore]
      dsimp only
      rw [scheduler_printLaunch, scheduler_putMemory]
      exact hlaunched _ _

/-! ## System calls -/

/-- What a call does for the running task happens under the lock, to the scheduler as it is. -/
theorem withCurrent_scheduler {α : Type} {P : Scheduler → Prop}
    {f : Task → Kernel → Except SystemCallError α × Kernel} (hidle : P k.scheduler)
    (hrunning : ∀ task k', k.scheduler.currentTask? = some task → k'.scheduler = k.scheduler →
      P (f task k').2.scheduler) : P (k.withCurrent f).2.scheduler := by
  rw [withCurrent, withLock]
  dsimp only
  cases hcurrent : k.scheduler.currentTask? with
  | none => exact hidle
  | some task => exact hrunning task _ hcurrent rfl

theorem scheduler_getPid (k : Kernel) : k.getPid.2.scheduler = k.scheduler := by
  have hsame : k.currentId.2.scheduler = k.scheduler := rfl
  rw [getPid]
  split
  · next heq => rwa [heq] at hsame
  · next heq => rwa [heq] at hsame

theorem scheduler_readUser (k : Kernel) (va : VirtAddr) (buffer : List Byte) :
    (k.readUser va buffer).2.scheduler = k.scheduler := by
  refine withCurrent_scheduler (P := (· = k.scheduler)) rfl fun task k' _ hsame => ?_
  split <;> exact hsame

theorem scheduler_writeUser (k : Kernel) (va : VirtAddr) (bytes : List Byte) :
    (k.writeUser va bytes).2.scheduler = k.scheduler :=
  withCurrent_scheduler (P := (· = k.scheduler)) rfl fun _ _ _ hsame => hsame

theorem scheduler_writeChunks (k : Kernel) (va : VirtAddr) (len : Nat) :
    (k.writeChunks va len).2.scheduler = k.scheduler := by
  fun_induction writeChunks k va len with
  | case1 k va len hpos n e k' hread =>
    have hsame := scheduler_readUser k va (List.replicate n 0)
    rwa [hread] at hsame
  | case2 k va len hpos n bytes k' hread ih =>
    have hsame := scheduler_readUser k va (List.replicate n 0)
    rw [hread] at hsame
    exact ih.trans hsame
  | case3 => rfl

theorem scheduler_readChunks (k : Kernel) (va : VirtAddr) (len : Nat) :
    (k.readChunks va len).2.scheduler = k.scheduler := by
  have hreceived {k k' : Kernel} {n : Nat} {bytes : List Byte}
      (h : k.receiveBytes n = (bytes, k')) : k'.scheduler = k.scheduler := by
    cases h
    rfl
  fun_induction readChunks k va len with
  | case1 k va len hpos n bytes k₁ hreceive e k' hwrite =>
    have hsame := scheduler_writeUser k₁ va bytes
    rw [hwrite] at hsame
    exact hsame.trans (hreceived hreceive)
  | case2 k va len hpos n bytes k₁ hreceive k' hwrite ih =>
    have hsame := scheduler_writeUser k₁ va bytes
    rw [hwrite] at hsame
    exact ih.trans (hsame.trans (hreceived hreceive))
  | case3 => rfl

theorem scheduler_transfer (k : Kernel) (va : VirtAddr) (len : Nat)
    {run : Kernel → VirtAddr → Nat → Except SystemCallError Unit × Kernel}
    (hrun : ∀ k va len, (run k va len).2.scheduler = k.scheduler) :
    (k.transfer va len run).2.scheduler = k.scheduler := by
  rw [transfer]
  split
  · exact hrun k va len
  · rfl

@[simp] theorem scheduler_reply (frame : TrapFrame)
    (result : Except SystemCallError Word × Kernel) :
    (reply frame result).2.scheduler = result.2.scheduler := by
  obtain ⟨value, k⟩ := result
  cases value <;> rfl

theorem settled_exec (h : k.scheduler.Settled) (va : VirtAddr) (frame : TrapFrame) :
    (k.exec va frame).2.scheduler.Settled := by
  rw [exec]
  generalize hread : k.withCurrent _ = r
  obtain ⟨name, k₁⟩ := r
  have hsame : k₁.scheduler = k.scheduler := by
    have hread' := congrArg (fun r => r.2.scheduler) hread
    dsimp only at hread'
    rw [← hread']
    exact withCurrent_scheduler (P := (· = k.scheduler)) rfl fun _ _ _ hsame => hsame
  have h₁ : k₁.print.scheduler.Settled := by
    rw [scheduler_print, hsame]
    exact h
  cases name with
  | error e =>
    dsimp only
    rw [scheduler_reply]
    exact h₁
  | ok name =>
    have hlaunched := settled_launch h₁ name .replace
    dsimp only
    split
    · next heq =>
      rw [heq] at hlaunched
      rw [scheduler_reply]
      exact hlaunched
    · next heq =>
      rw [heq] at hlaunched
      exact hlaunched

/-- The running task is stored under its number. -/
theorem get?_of_currentTask? {s : Scheduler} {task : Task} (h : s.currentTask? = some task) :
    s.store.get? task.id = some task := by
  obtain ⟨id, -, hget⟩ := Option.bind_eq_some_iff.1 h
  rw [TaskStore.id_of_get? hget]
  exact hget

@[simp] theorem scheduler_putTask (k : Kernel) (task : Task) :
    (k.putTask task).scheduler = k.scheduler.modify task.id fun _ => task := rfl

/-- However a request to install a handler goes, only signals and tables may change. -/
theorem task_of_handlerEnd {F : Type} [FrameSource F] {task : Task} {mem : Memory F} {signum : Int}
    {addr : Word} {trampoline : PhysAddr} {outcome : Except HandlerError Word × Task × Memory F}
    (h : Task.HandlerEnd task mem signum addr trampoline outcome) :
    ∃ signals space, outcome.2.1 = { task with signals, space } := by
  cases h with
  | refused => exact ⟨task.signals, task.space, rfl⟩
  | unmapped => exact ⟨task.signals, _, rfl⟩
  | mapped => exact ⟨_, _, rfl⟩
  | unneeded => exact ⟨_, task.space, rfl⟩

theorem settled_installHandler (h : k.scheduler.Settled) (signum : Int) (handler : Word) :
    (k.installHandler signum handler).2.scheduler.Settled := by
  refine withCurrent_scheduler h fun task k' hcurrent hsame => ?_
  have hend := Task.registerHandler_end task k'.lockedMemory signum handler k'.trampoline
  dsimp only
  generalize task.registerHandler k'.lockedMemory signum handler k'.trampoline = outcome at hend ⊢
  obtain ⟨signals, space, htask⟩ := task_of_handlerEnd hend
  rw [htask, scheduler_putTask, scheduler_putMemory, hsame]
  exact h.store_back (get?_of_currentTask? hcurrent) signals space

theorem settled_postSignal (h : k.scheduler.Settled) (id : TaskId) (signum : Int) :
    (k.postSignal id signum).2.scheduler.Settled := by
  rw [postSignal, scheduler_update]
  split
  · exact h
  · split
    · exact h
    · exact h.modify id (fun _ => rfl) (fun _ => rfl) fun _ => rfl

theorem settled_returnFromHandler (h : k.scheduler.Settled) (frame : TrapFrame) :
    (k.returnFromHandler frame).2.scheduler.Settled := by
  rw [returnFromHandler]
  generalize hreturn : k.withCurrent _ = r
  obtain ⟨result, k₁⟩ := r
  have h₁ : k₁.scheduler.Settled := by
    have hreturn' := congrArg (fun r => r.2.scheduler) hreturn
    dsimp only at hreturn'
    rw [← hreturn']
    refine withCurrent_scheduler h fun task k' hcurrent hsame => ?_
    split
    · next signals _ _ =>
      rw [scheduler_putTask, hsame]
      exact h.store_back (get?_of_currentTask? hcurrent) signals task.space
    · show k'.scheduler.Settled
      rw [hsame]
      exact h
  cases result with
  | ok frame => exact h₁
  | error e =>
    dsimp only
    rw [scheduler_reply]
    exact h₁

theorem settled_dispatch (h : k.scheduler.Settled) (frame : TrapFrame) :
    (k.dispatch frame).2.scheduler.Settled := by
  rw [dispatch]
  split
  · rw [scheduler_reply, scheduler_getPid]
    exact h
  · rw [scheduler_reply, scheduler_transfer _ _ _ scheduler_readChunks]
    exact h
  · rw [scheduler_reply, scheduler_transfer _ _ _ scheduler_writeChunks]
    exact h
  · exact settled_exec h _ frame
  · rw [scheduler_reply]
    exact h
  · rw [scheduler_reply]
    exact h
  · exact settled_exit h
  · next id _ =>
    have hkilled := settled_kill h id
    rw [scheduler_reply, killTask]
    split
    · next heq => rwa [heq] at hkilled
    · next heq => rwa [heq] at hkilled
  · rw [scheduler_reply]
    exact settled_installHandler h _ _
  · rw [scheduler_reply]
    exact settled_postSignal h _ _
  · exact settled_returnFromHandler h frame
  · rw [scheduler_reply]
    exact settled_schedule h
  · rw [scheduler_reply]
    exact h
  · rw [scheduler_reply]
    exact h

theorem settled_returnToUser (h : k.scheduler.Settled) (frame : TrapFrame) :
    (k.returnToUser frame).2.scheduler.Settled := by
  rw [returnToUser]
  generalize hdeliver : k.update _ = r
  obtain ⟨⟨delivery, frame'⟩, k₁⟩ := r
  have h₁ : k₁.scheduler.Settled := by
    have hdeliver' := congrArg (fun r => r.2.scheduler) hdeliver
    rw [scheduler_update] at hdeliver'
    dsimp only at hdeliver'
    rw [← hdeliver']
    split
    · exact h
    · exact h.modify _ (fun _ => rfl) (fun _ => rfl) fun _ => rfl
  cases delivery with
  | nothing => exact h₁
  | handler n => exact h₁
  | terminate n => exact settled_exit (k := k₁.print) h₁

/-! ## Reachable kernels -/

/-- The ways into the kernel. -/
inductive Entry where
  | init (entry : VirtAddr)
  | schedule
  | tick
  | interrupt
  | exit
  | kill (id : TaskId)
  | blockCurrent
  | wake (id : TaskId)
  | reap
  | launch (name : String) (mode : LaunchMode)
  /-- A system call that a frame asks for. -/
  | call (frame : TrapFrame)
  /-- The way back to user mode. -/
  | leave (frame : TrapFrame)

/-- The kernel after one of its entry points was used. -/
def enter (k : Kernel) : Entry → Kernel
  | .init entry => (k.init entry).2
  | .schedule => k.schedule
  | .tick => k.tick
  | .interrupt => k.handleIrq
  | .exit => k.exit
  | .kill id => (k.kill id).2
  | .blockCurrent => k.blockCurrent
  | .wake id => (k.wake id).2
  | .reap => k.reap.2
  | .launch name mode => (k.launch name mode).2
  | .call frame => (k.dispatch frame).2
  | .leave frame => (k.returnToUser frame).2

/-- The idle task is created only while no task is running; nothing else is restricted. -/
def Admits (k : Kernel) : Entry → Prop
  | .init _ => k.scheduler.current = none
  | _ => True

theorem settled_enter (h : k.scheduler.Settled) (entry : Entry) (admitted : k.Admits entry) :
    (k.enter entry).scheduler.Settled := by
  cases entry with
  | init start => exact settled_init h admitted start
  | schedule => exact settled_schedule h
  | tick => exact settled_tick h
  | interrupt =>
    rw [enter, handleIrq]
    split
    · exact settled_tick h
    · exact h
  | exit => exact settled_exit h
  | kill id => exact settled_kill h id
  | blockCurrent => exact settled_blockCurrent h
  | wake id => exact settled_wake h id
  | reap => exact settled_reap h
  | launch name mode => exact settled_launch h name mode
  | call frame => exact settled_dispatch h frame
  | leave frame => exact settled_returnToUser h frame

/-- The kernels that come to be when entry points are used and the scheduler is asked for
    anything, in any order and with whatever the rest of the machine does in between. A request
    to the scheduler may come with frames and a platform of its own. -/
inductive Reachable : Kernel → Prop
  | start {k : Kernel} (empty : k.scheduler = .empty) : Reachable k
  | entry {k : Kernel} (reachable : Reachable k) (entry : Entry) (admitted : k.Admits entry) :
      Reachable (k.enter entry)
  | request {k : Kernel} (reachable : Reachable k) {F P S : Type} [FrameSource F] [Platform P]
      [ImageSource S] (request : Request S) (mem : Memory F) (hw : P)
      (admitted : k.scheduler.Admits request) :
      Reachable { k with scheduler := (k.scheduler.answer mem hw request).2.1 }
  | outside {k k' : Kernel} (reachable : Reachable k) (same : k'.scheduler = k.scheduler) :
      Reachable k'

theorem Reachable.settled (h : Reachable k) : k.scheduler.Settled := by
  induction h with
  | start empty =>
    rw [empty]
    exact Scheduler.settled_empty
  | entry reachable entry admitted ih => exact settled_enter ih entry admitted
  | request reachable request mem hw admitted ih =>
    exact (ih.answered mem hw request admitted).settled
  | outside reachable same ih =>
    rw [same]
    exact ih

end Kernel

end TaskKernel
