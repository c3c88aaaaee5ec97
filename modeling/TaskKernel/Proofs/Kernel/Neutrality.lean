/-
  TaskKernel.Proofs.Kernel.Neutrality

  The interrupt mask and the locks across the kernel's entry points. Whoever enters the kernel
  and comes back finds the mask word as it was and no lock held. In between interrupts are
  masked whenever a lock is held, and no lock is asked for while it is held.
-/
import TaskKernel.Proofs.Interrupt.Moments
import TaskKernel.Proofs.Kernel.TaskCalls

namespace TaskKernel

variable {L : Type}

/-! ## Decisions of the scheduler -/

namespace Scheduler

variable {core : Core L}

/-- With interrupts masked, a decision puts back what it found or leaves interrupts masked for
    the switch. -/
theorem neutral_schedule (s : Scheduler) (hguarded : core.Guarded)
    (hmasked : core.mask = irqMaskBit) : core.Neutral (s.schedule core).2.2 := by
  have hdisabled := Core.steady_irqDisable hguarded
  rcases s.schedule_platform core with hresumed | hswitched
  · rw [hresumed]
    exact hdisabled.restored hguarded
  · rw [hswitched]
    exact ⟨hdisabled, hmasked.symm⟩

theorem neutral_terminate (s : Scheduler) (id : TaskId) (hguarded : core.Guarded)
    (hmasked : core.mask = irqMaskBit) : core.Neutral (s.terminate id core).2.2 := by
  rw [terminate]
  split
  · exact .refl core
  · dsimp only
    split
    · exact neutral_schedule _ hguarded hmasked
    · exact .refl core

theorem neutral_exit (s : Scheduler) (hguarded : core.Guarded)
    (hmasked : core.mask = irqMaskBit) : core.Neutral (s.exit core).2.2 := by
  rw [exit]
  split
  · exact .refl core
  · exact neutral_terminate s _ hguarded hmasked

theorem neutral_blockCurrent (s : Scheduler) (hguarded : core.Guarded)
    (hmasked : core.mask = irqMaskBit) : core.Neutral (s.blockCurrent core).2.2 := by
  rw [blockCurrent]
  split
  · exact .refl core
  · exact neutral_schedule _ hguarded hmasked

theorem neutral_enterTask (s : Scheduler) (hguarded : core.Guarded) (id : TaskId)
    (mode : LaunchMode) : core.Neutral (s.enterTask core id mode).2.2 := by
  rw [enterTask]
  split
  · exact .refl core
  · next task _ =>
    have hinstalled := Core.neutral_setPageTable hguarded task.pageTable
    dsimp only
    split
    · exact hinstalled
    · exact hinstalled

theorem neutral_prepare {F S : Type} [FrameSource F] [ImageSource S] (s : Scheduler)
    (mem : Memory F) (hguarded : core.Guarded) (images : S) (name : String) (mode : LaunchMode) :
    core.Neutral (s.prepare mem core images name mode).2.2.2 := by
  rw [prepare]
  dsimp only
  split
  · exact .refl core
  · split
    · exact .refl core
    · split
      · exact .refl core
      · exact neutral_enterTask _ hguarded _ mode

end Scheduler

/-! ## Under a lock -/

namespace Kernel

variable {k k' : Kernel} {α : Type}

/-- A lock is taken around a neutral course. -/
theorem neutral_withLock {lock : KernelLock} {f : Kernel → α × Kernel}
    (hguarded : k.core.Guarded) (hfree : lock ∉ k.core.held)
    (hrun : ∀ k' : Kernel, k'.core = (k.core.acquire lock).2 → k'.core.Neutral (f k').2.core) :
    k.core.Neutral (k.withLock lock f).2.core :=
  Core.neutral_locked hguarded hfree (hrun { k with core := (k.core.acquire lock).2 } rfl)

/-- A lock is taken for something the core has no part in. -/
theorem neutral_withLock_of_core {lock : KernelLock} {f : Kernel → α × Kernel}
    (hguarded : k.core.Guarded) (hfree : lock ∉ k.core.held)
    (hrun : ∀ k', (f k').2.core = k'.core) : k.core.Neutral (k.withLock lock f).2.core := by
  refine neutral_withLock hguarded hfree fun k' _ => ?_
  rw [hrun k']
  exact .refl k'.core

theorem neutral_print (hguarded : k.core.Guarded) (hfree : .console ∉ k.core.held) :
    k.core.Neutral k.print.core :=
  neutral_withLock_of_core hguarded hfree fun _ => rfl

theorem neutral_prints {β : Type} (lines : List β) (hguarded : k.core.Guarded)
    (hfree : .console ∉ k.core.held) :
    k.core.Neutral (lines.foldl (fun k _ => k.print) k).core := by
  induction lines generalizing k with
  | nil => exact .refl k.core
  | cons line lines ih =>
    have hprinted := neutral_print hguarded hfree
    refine hprinted.trans (ih (hprinted.guarded hguarded) ?_)
    rw [hprinted.held]
    exact hfree

theorem neutral_takeHeapTurns (n : Nat) (hguarded : k.core.Guarded) (hfree : .heap ∉ k.core.held) :
    k.core.Neutral (k.takeHeapTurns n).core := by
  induction n generalizing k with
  | zero => exact .refl k.core
  | succ n ih =>
    have hturn : k.core.Neutral (k.withLock .heap fun k => ((), k)).2.core :=
      neutral_withLock_of_core hguarded hfree fun _ => rfl
    refine hturn.trans (ih (hturn.guarded hguarded) ?_)
    rw [hturn.held]
    exact hfree

theorem neutral_putMemory (memory : Memory LockedHeap) (hguarded : k.core.Guarded)
    (hfree : .heap ∉ k.core.held) : k.core.Neutral (k.putMemory memory).core :=
  neutral_takeHeapTurns (k := { k with memory := ⟨memory.ram, memory.frames.heap⟩ }) _ hguarded hfree

/-! ## Under the lock of the scheduler -/

/-- Only the lock of the scheduler is held, and interrupts are masked. -/
structure Deciding (k : Kernel) : Prop where
  held : k.core.held = [.scheduler]
  mask : k.core.mask = irqMaskBit

namespace Deciding

theorem guarded (h : k.Deciding) : k.core.Guarded where
  once := by
    rw [h.held]
    exact List.nodup_singleton KernelLock.scheduler
  masked _ := h.mask

theorem after (h : k.Deciding) (hcourse : k.core.Neutral k'.core) : k'.Deciding where
  held := hcourse.held.trans h.held
  mask := hcourse.mask.trans h.mask

theorem with_scheduler (h : k.Deciding) (s : Scheduler) : Deciding { k with scheduler := s } where
  held := h.held
  mask := h.mask

theorem notMem (h : k.Deciding) {lock : KernelLock} (hother : lock ≠ .scheduler) :
    lock ∉ k.core.held := by
  rw [h.held, List.mem_singleton]
  exact hother

theorem print (h : k.Deciding) : k.core.Neutral k.print.core :=
  neutral_print h.guarded (h.notMem (by decide))

theorem putMemory (h : k.Deciding) (memory : Memory LockedHeap) :
    k.core.Neutral (k.putMemory memory).core :=
  neutral_putMemory memory h.guarded (h.notMem (by decide))

theorem printLaunch (h : k.Deciding) (result : Except LaunchError LaunchTarget) :
    k.core.Neutral (k.printLaunch result).core := by
  rw [Kernel.printLaunch.eq_def]
  split
  · exact .refl k.core
  · exact .refl k.core
  · exact .refl k.core
  · exact h.print

end Deciding

theorem neutral_deciding {f : Kernel → α × Kernel} (hfree : k.core.held = [])
    (hrun : ∀ k' : Kernel, k'.Deciding → k'.core.Neutral (f k').2.core) :
    k.core.Neutral (k.withLock .scheduler f).2.core := by
  have hother := Core.notMem_of_free hfree KernelLock.scheduler
  refine neutral_withLock (Core.guarded_of_free hfree) hother fun k' hcore => hrun k' ⟨?_, ?_⟩
  · rw [hcore]
    exact congrArg (KernelLock.scheduler :: ·) hfree
  · rw [hcore]
    rfl

theorem neutral_update {f : Scheduler → α × Scheduler} (hfree : k.core.held = []) :
    k.core.Neutral (k.update f).2.core :=
  neutral_deciding hfree fun k' _ => .refl k'.core

/-- A line is printed while no lock is held. -/
theorem neutral_print_free (hfree : k.core.held = []) : k.core.Neutral k.print.core :=
  neutral_print (Core.guarded_of_free hfree) (Core.notMem_of_free hfree _)

/-! ## Decisions carried out -/

/-- Interrupts are masked around a course that ends with no lock held. -/
theorem neutral_masked (hfree : k.core.held = []) (h : k.irqDisable.2.core.Steady k'.core) :
    k.core.Neutral (k'.irqRestore k.irqDisable.1).core :=
  have hguarded := Core.guarded_of_free hfree
  ((Core.steady_irqDisable hguarded).trans h).restored hguarded

/-- A decision is carried out with no lock held, so the mask word it brings exposes none. -/
theorem steady_complete (hfree : k.core.held = []) (result : Except SchedulerError Outcome) :
    k.core.Steady (k.complete result).core := by
  cases result with
  | error e => exact (neutral_print_free hfree).toSteady
  | ok outcome =>
    cases outcome with
    | stay => exact .refl k.core
    | installed id => exact .refl k.core
    | switch switch => exact Core.steady_irqRestore hfree switch.irqState

section

variable {f : Scheduler → Core KernelLock → Except SchedulerError Outcome × Scheduler × Core KernelLock}

/-- A decision is made under the lock and carried out after it. -/
theorem steady_decided (hfree : k.core.held = [])
    (hrun : ∀ (s : Scheduler) (core : Core KernelLock), core.Guarded → core.mask = irqMaskBit →
      core.Neutral (f s core).2.2) :
    k.core.Steady ((k.decide f).2.complete (k.decide f).1).core := by
  have hdecided : k.core.Neutral (k.decide f).2.core :=
    neutral_deciding hfree fun k' hdeciding =>
      hrun k'.scheduler k'.core hdeciding.guarded hdeciding.mask
  exact hdecided.toSteady.trans (steady_complete (hdecided.held.trans hfree) _)

end

theorem neutral_schedule (hfree : k.core.held = []) : k.core.Neutral k.schedule.core :=
  neutral_masked hfree (steady_decided (k := k.irqDisable.2) hfree fun s _ => s.neutral_schedule)

theorem neutral_blockCurrent (hfree : k.core.held = []) : k.core.Neutral k.blockCurrent.core :=
  neutral_masked hfree
    (steady_decided (k := k.irqDisable.2) hfree fun s _ => s.neutral_blockCurrent)

/-- A task that exits leaves no lock behind either. -/
theorem steady_exit (hfree : k.core.held = []) : k.core.Steady k.exit.core :=
  (Core.steady_irqDisable (Core.guarded_of_free hfree)).trans
    (steady_decided (k := k.irqDisable.2) hfree fun s _ => s.neutral_exit)

theorem neutral_tick (hfree : k.core.held = []) : k.core.Neutral k.tick.core := by
  have hticked : k.core.Neutral (k.update Scheduler.tick).2.core := neutral_update hfree
  rw [tick]
  split
  · next heq =>
    rw [heq] at hticked
    exact hticked.trans (neutral_schedule (hticked.held.trans hfree))
  · next heq =>
    rw [heq] at hticked
    exact hticked

theorem neutral_handleIrq (hfree : k.core.held = []) : k.core.Neutral k.handleIrq.core := by
  rw [handleIrq]
  split
  · exact neutral_tick hfree
  · exact .refl k.core

theorem neutral_kill (hfree : k.core.held = []) (id : TaskId) :
    k.core.Neutral (k.kill id).2.core := by
  rw [kill]
  dsimp only
  refine neutral_masked hfree ?_
  generalize hlocked : k.irqDisable.2.withLock .scheduler _ = locked
  have hdecided : k.irqDisable.2.core.Neutral locked.2.core := by
    rw [← hlocked]
    refine neutral_deciding hfree fun k' hdeciding => ?_
    have hcore := k'.scheduler.neutral_terminate id hdeciding.guarded hdeciding.mask
    generalize k'.scheduler.terminate id k'.core = terminated at hcore ⊢
    obtain ⟨result, scheduler, core⟩ := terminated
    have hafter : Deciding { k' with scheduler, core } := hdeciding.after hcore
    split
    · exact hcore.trans hafter.print
    · exact hcore
  exact hdecided.toSteady.trans (steady_complete (hdecided.held.trans hfree) _)

/-! ## Tasks and programs -/

theorem neutral_init (hfree : k.core.held = []) (entry : VirtAddr) :
    k.core.Neutral (k.init entry).2.core := by
  refine neutral_deciding hfree fun k' hdeciding => ?_
  generalize k'.scheduler.init k'.lockedMemory entry = created
  obtain ⟨result, scheduler, memory⟩ := created
  have hstored : k'.core.Neutral (Kernel.putMemory { k' with scheduler } memory).core :=
    (hdeciding.with_scheduler scheduler).putMemory memory
  cases result with
  | ok id => exact hstored.trans (hdeciding.after hstored).print
  | error e => exact hstored

theorem neutral_reap (hfree : k.core.held = []) : k.core.Neutral k.reap.2.core := by
  refine neutral_deciding hfree fun k' hdeciding => ?_
  generalize k'.scheduler.reap k'.lockedMemory = reaped
  obtain ⟨ids, scheduler, memory⟩ := reaped
  have hstored : k'.core.Neutral (Kernel.putMemory { k' with scheduler } memory).core :=
    (hdeciding.with_scheduler scheduler).putMemory memory
  have hafter := hdeciding.after hstored
  exact hstored.trans (neutral_prints ids hafter.guarded (hafter.notMem (by decide)))

/-- No lock is left by a launch, and one that fails puts the mask word back. -/
theorem unwinds_launch (hfree : k.core.held = []) (name : String) (mode : LaunchMode) :
    k.core.Unwinds (∃ e, (k.launch name mode).1 = .error e) (k.launch name mode).2.core := by
  rw [launch]
  dsimp only
  split
  · have hprinted := neutral_print_free (k := k.irqDisable.2) hfree
    exact (neutral_masked hfree hprinted.toSteady).unwinds _
  · next archive _ =>
    generalize hlocked : k.irqDisable.2.withLock .scheduler _ = locked
    have hprepared : k.irqDisable.2.core.Neutral locked.2.core := by
      rw [← hlocked]
      refine neutral_deciding hfree fun k' hdeciding => ?_
      have hcore := k'.scheduler.neutral_prepare k'.lockedMemory hdeciding.guarded archive name mode
      dsimp only
      generalize k'.scheduler.prepare k'.lockedMemory k'.core archive name mode = prepared at hcore ⊢
      obtain ⟨result, scheduler, memory, core⟩ := prepared
      have hentered : Deciding { k' with scheduler, core } := hdeciding.after hcore
      have hstored := hentered.putMemory memory
      exact (hcore.trans hstored).trans ((hentered.after hstored).printLaunch result)
    split
    -- The new task is entered with interrupts masked.
    · have hmasked := Core.steady_irqDisable (Core.guarded_of_free hfree)
      apply (hmasked.trans hprepared.toSteady).unwinds
      rintro ⟨e, herror⟩
      cases herror
    · exact (neutral_masked hfree hprepared.toSteady).unwinds _

/-! ## System calls -/

theorem neutral_withCurrent {f : Task → Kernel → Except SystemCallError α × Kernel}
    (hfree : k.core.held = [])
    (hrun : ∀ (task : Task) (k' : Kernel), k'.Deciding → k'.core.Neutral (f task k').2.core) :
    k.core.Neutral (k.withCurrent f).2.core := by
  refine neutral_deciding hfree fun k' hdeciding => ?_
  split
  · exact .refl k'.core
  · next task _ => exact hrun task k' hdeciding

theorem neutral_readUser (hfree : k.core.held = []) (va : VirtAddr) (buffer : List Byte) :
    k.core.Neutral (k.readUser va buffer).2.core := by
  refine neutral_withCurrent hfree fun task k' _ => ?_
  split
  · exact .refl k'.core
  · exact .refl k'.core

theorem neutral_writeUser (hfree : k.core.held = []) (va : VirtAddr) (bytes : List Byte) :
    k.core.Neutral (k.writeUser va bytes).2.core :=
  neutral_withCurrent hfree fun _ k' _ => .refl k'.core

theorem neutral_receiveBytes (hfree : k.core.held = []) (n : Nat) :
    k.core.Neutral (k.receiveBytes n).2.core :=
  neutral_withLock_of_core (Core.guarded_of_free hfree) (Core.notMem_of_free hfree _) fun _ => rfl

theorem neutral_writeChunks (k : Kernel) (va : VirtAddr) (len : Nat) (hfree : k.core.held = []) :
    k.core.Neutral (k.writeChunks va len).2.core := by
  fun_induction writeChunks k va len with
  | case1 k va len hpos n e k' hread =>
    have hcourse := neutral_readUser hfree va (List.replicate n 0)
    rwa [hread] at hcourse
  | case2 k va len hpos n bytes k' hread ih =>
    have hcourse := neutral_readUser hfree va (List.replicate n 0)
    rw [hread] at hcourse
    have hsent := hcourse.trans (neutral_print_free (hcourse.held.trans hfree))
    exact hsent.trans (ih (hsent.held.trans hfree))
  | case3 k => exact .refl k.core

theorem neutral_readChunks (k : Kernel) (va : VirtAddr) (len : Nat) (hfree : k.core.held = []) :
    k.core.Neutral (k.readChunks va len).2.core := by
  fun_induction readChunks k va len with
  | case1 k va len hpos n bytes k₁ hreceive e k' hwrite =>
    have hreceived := neutral_receiveBytes hfree n
    rw [hreceive] at hreceived
    have hwritten := neutral_writeUser (hreceived.held.trans hfree) va bytes
    rw [hwrite] at hwritten
    exact hreceived.trans hwritten
  | case2 k va len hpos n bytes k₁ hreceive k' hwrite ih =>
    have hreceived := neutral_receiveBytes hfree n
    rw [hreceive] at hreceived
    have hwritten := neutral_writeUser (hreceived.held.trans hfree) va bytes
    rw [hwrite] at hwritten
    have hcourse := hreceived.trans hwritten
    exact hcourse.trans (ih (hcourse.held.trans hfree))
  | case3 k => exact .refl k.core

theorem neutral_transfer (hfree : k.core.held = []) (va : VirtAddr) (len : Nat)
    {run : Kernel → VirtAddr → Nat → Except SystemCallError Unit × Kernel}
    (hrun : ∀ (k : Kernel) va len, k.core.held = [] → k.core.Neutral (run k va len).2.core) :
    k.core.Neutral (k.transfer va len run).2.core := by
  rw [transfer]
  split
  · exact hrun k va len hfree
  · exact .refl k.core

theorem neutral_getPid (hfree : k.core.held = []) : k.core.Neutral k.getPid.2.core := by
  have hasked : k.core.Neutral k.currentId.2.core := neutral_update hfree
  rw [getPid]
  split
  · next heq => rwa [heq] at hasked
  · next heq => rwa [heq] at hasked

theorem neutral_killTask (hfree : k.core.held = []) (id : TaskId) :
    k.core.Neutral (k.killTask id).2.core := by
  have hkilled := neutral_kill hfree id
  rw [killTask]
  split
  · next heq => rwa [heq] at hkilled
  · next heq => rwa [heq] at hkilled

theorem neutral_installHandler (hfree : k.core.held = []) (signum : Int) (handler : Word) :
    k.core.Neutral (k.installHandler signum handler).2.core :=
  neutral_withCurrent hfree fun _ _ hdeciding => hdeciding.putMemory _

theorem neutral_postSignal (hfree : k.core.held = []) (id : TaskId) (signum : Int) :
    k.core.Neutral (k.postSignal id signum).2.core :=
  neutral_update hfree

theorem neutral_reply {value : Except SystemCallError Word} (hfree : k.core.held = [])
    (h : k.core.Neutral k'.core) (frame : TrapFrame) :
    k.core.Neutral (reply frame (value, k')).2.core := by
  cases value with
  | ok value => exact h
  | error e => exact h.trans (neutral_print_free (h.held.trans hfree))

theorem neutral_returnFromHandler (hfree : k.core.held = []) (frame : TrapFrame) :
    k.core.Neutral (k.returnFromHandler frame).2.core := by
  rw [returnFromHandler]
  generalize hreturn : k.withCurrent _ = r
  have hreturned : k.core.Neutral r.2.core := by
    rw [← hreturn]
    refine neutral_withCurrent hfree fun task k' _ => ?_
    split
    · exact .refl k'.core
    · exact .refl k'.core
  obtain ⟨result, k₁⟩ := r
  cases result with
  | ok frame => exact hreturned
  | error e => exact neutral_reply hfree hreturned frame

/-- The mask word is back unless the program was found and started. -/
theorem unwinds_exec (hfree : k.core.held = []) (va : VirtAddr) (frame : TrapFrame) :
    k.core.Unwinds (∀ target, (k.exec va frame).1 ≠ .enter target) (k.exec va frame).2.core := by
  rw [exec]
  generalize hread : k.withCurrent _ = r
  have hnamed : k.core.Neutral r.2.core := by
    rw [← hread]
    exact neutral_withCurrent hfree fun _ k' _ => .refl k'.core
  obtain ⟨name, k₁⟩ := r
  cases name with
  | error e => exact (neutral_reply hfree hnamed frame).unwinds _
  | ok name =>
    have hprinted := hnamed.trans (neutral_print_free (k := k₁) (hnamed.held.trans hfree))
    have hlaunched := unwinds_launch (hprinted.held.trans hfree) name .replace
    dsimp only
    generalize k₁.print.launch name .replace = launched at hlaunched ⊢
    obtain ⟨result, k₂⟩ := launched
    cases result with
    | error e =>
      have hfailed : k₁.print.core.Neutral k₂.core := ⟨hlaunched.toSteady, hlaunched.mask ⟨e, rfl⟩⟩
      exact (neutral_reply hfree (hprinted.trans hfailed) frame).unwinds _
    | ok target =>
      apply (hprinted.toSteady.trans hlaunched.toSteady).unwinds
      intro hnone
      exact hnone target rfl

theorem unwinds_dispatch (hfree : k.core.held = []) (frame : TrapFrame) :
    k.core.Unwinds
      (SystemCall.decode frame ≠ .exit ∧ ∀ target, (k.dispatch frame).1 ≠ .enter target)
      (k.dispatch frame).2.core := by
  have hrefused (e : SystemCallError) : k.core.Neutral (reply frame (.error e, k)).2.core :=
    neutral_reply hfree (.refl k.core) frame
  rw [dispatch]
  cases SystemCall.decode frame with
  | getPid => exact (neutral_reply hfree (neutral_getPid hfree) frame).unwinds _
  | uartRead buffer length =>
    have hread := neutral_transfer hfree buffer length neutral_readChunks
    exact (neutral_reply hfree hread frame).unwinds _
  | uartWrite buffer length =>
    have hwritten := neutral_transfer hfree buffer length neutral_writeChunks
    exact (neutral_reply hfree hwritten frame).unwinds _
  | exec name =>
    obtain ⟨hsteady, hmask⟩ := unwinds_exec hfree name frame
    exact ⟨hsteady, fun hback => hmask hback.2⟩
  | fork => exact (hrefused _).unwinds _
  | mailbox => exact (hrefused _).unwinds _
  | exit =>
    apply (steady_exit hfree).unwinds
    intro hback
    exact hback.1 rfl
  | kill id => exact (neutral_reply hfree (neutral_killTask hfree id) frame).unwinds _
  | signal signum handler =>
    exact (neutral_reply hfree (neutral_installHandler hfree signum handler) frame).unwinds _
  | sigKill id signum =>
    exact (neutral_reply hfree (neutral_postSignal hfree id signum) frame).unwinds _
  | sigReturn => exact (neutral_returnFromHandler hfree frame).unwinds _
  | yield => exact (neutral_reply hfree (neutral_schedule hfree) frame).unwinds _
  | badArgument number value => exact (hrefused _).unwinds _
  | unknown number => exact (neutral_reply hfree (neutral_print_free hfree) frame).unwinds _

theorem unwinds_returnToUser (hfree : k.core.held = []) (frame : TrapFrame) :
    k.core.Unwinds ((k.returnToUser frame).1 ≠ .gone) (k.returnToUser frame).2.core := by
  rw [returnToUser]
  generalize hdeliver : k.update _ = r
  have hdelivered : k.core.Neutral r.2.core := by
    rw [← hdeliver]
    exact neutral_update hfree
  obtain ⟨⟨delivery, frame'⟩, k₁⟩ := r
  have hprinted := hdelivered.trans (neutral_print_free (k := k₁) (hdelivered.held.trans hfree))
  cases delivery with
  | nothing => exact hdelivered.unwinds _
  | handler n => exact hprinted.unwinds _
  | terminate n =>
    have hexited := steady_exit (hprinted.held.trans hfree)
    apply (hprinted.toSteady.trans hexited).unwinds
    intro hback
    exact hback rfl

/-! ## Every entry point -/

/-- Control comes back from the entry point: the task that asked has not exited, was not
    terminated by a signal, and no program took over from it. -/
def Returns (k : Kernel) : Entry → Prop
  | .exit => False
  | .launch name mode => ∃ e, (k.launch name mode).1 = .error e
  | .call frame => SystemCall.decode frame ≠ .exit ∧ ∀ target, (k.dispatch frame).1 ≠ .enter target
  | .leave frame => (k.returnToUser frame).1 ≠ .gone
  | _ => True

theorem unwinds_enter (hfree : k.core.held = []) (entry : Entry) :
    k.core.Unwinds (k.Returns entry) (k.enter entry).core := by
  cases entry with
  | init start => exact (neutral_init hfree start).unwinds _
  | schedule => exact (neutral_schedule hfree).unwinds _
  | tick => exact (neutral_tick hfree).unwinds _
  | interrupt => exact (neutral_handleIrq hfree).unwinds _
  | exit => exact (steady_exit hfree).unwinds not_false
  | kill id => exact (neutral_kill hfree id).unwinds _
  | blockCurrent => exact (neutral_blockCurrent hfree).unwinds _
  | wake id => exact (neutral_update hfree).unwinds _
  | reap => exact (neutral_reap hfree).unwinds _
  | launch name mode => exact unwinds_launch hfree name mode
  | call frame => exact unwinds_dispatch hfree frame
  | leave frame => exact unwinds_returnToUser hfree frame

/-- Interrupts and locks across an entry point that is used with no lock held: there is none
    afterwards, interrupts are masked at every moment at which one is held, none is asked for
    while it is held, and if control comes back the mask word is what it was. -/
theorem enter_neutral (k : Kernel) (hfree : k.core.held = []) (entry : Entry) :
    (k.enter entry).core.held = [] ∧
      (∃ moments, (k.enter entry).core.history = moments ++ k.core.history ∧
        ∀ m ∈ moments, m.held.Nodup ∧ (m.held ≠ [] → m.mask = irqMaskBit)) ∧
      (k.Returns entry → (k.enter entry).core.mask = k.core.mask) := by
  obtain ⟨⟨hheld, moments, hhistory, hguarded⟩, hmask⟩ := unwinds_enter hfree entry
  refine ⟨hheld.trans hfree, ⟨moments, hhistory, ?_⟩, hmask⟩
  intro m hmem
  exact ⟨(hguarded m hmem).once, (hguarded m hmem).masked⟩

/-- With everything but ordinary interrupts masked, the idle task hands over to the other task. -/
theorem enter_neutral_switch :
    let k := { idleAndReady with core := .withMask 0x340 }
    k.core.held = [] ∧ (k.enter .schedule).scheduler.current = some ⟨1⟩ ∧
      ⟨irqMaskBit, [.scheduler]⟩ ∈ (k.enter .schedule).core.history ∧
      (k.enter .schedule).core.mask = 0x340 ∧ (k.enter .schedule).core.held = [] := by
  intro k
  have hfree : k.core.held = [] := rfl
  obtain ⟨hheld, -, hmask⟩ := enter_neutral k hfree .schedule
  refine ⟨hfree, ?_, ?_, hmask trivial, hheld⟩
  · decide +kernel
  · decide +kernel

end Kernel

end TaskKernel
