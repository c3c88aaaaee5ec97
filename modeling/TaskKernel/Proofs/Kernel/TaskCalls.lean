/-
  TaskKernel.Proofs.Kernel.TaskCalls

  The two calls that name another task: one kills it, the other makes a signal pending in it.
  Both act on the task with exactly that number, if it is ready, waits or runs, and on nothing
  else; otherwise they fail and nothing has changed.
-/
import TaskKernel.Proofs.Kernel.Reachable
import TaskKernel.Proofs.Scheduler.Gates
import TaskKernel.Proofs.Scheduler.HandOver

namespace TaskKernel

/-! ## Kernels that differ in the history of their core -/

/-- The same mask word, root table and locks. -/
structure Core.Agrees {L : Type} (core core' : Core L) : Prop where
  mask : core'.mask = core.mask
  pageTable : core'.pageTable = core.pageTable
  held : core'.held = core.held

/-- Whoever took a lock and lets go of it leaves the core as it was. -/
theorem Core.agrees_release {L : Type} [DecidableEq L] {core core' : Core L} {lock : L}
    (held : core'.held = lock :: core.held) (pageTable : core'.pageTable = core.pageTable) :
    core.Agrees (core'.release ⟨lock, core.mask⟩) where
  mask := rfl
  pageTable := pageTable
  held := by
    show core'.held.erase lock = core.held
    rw [held, List.erase_cons_head]

/-- Two kernels are the same but for what their cores went through. -/
structure Kernel.Alike (k k' : Kernel) : Prop where
  core : k.core.Agrees k'.core
  scheduler : k'.scheduler = k.scheduler
  memory : k'.memory = k.memory
  archive : k'.archive = k.archive
  timer : k'.timer = k.timer
  bus : k'.bus = k.bus
  trampoline : k'.trampoline = k.trampoline

namespace Kernel

variable {k k' k'' : Kernel}

namespace Alike

theorem symm (h : k.Alike k') : k'.Alike k where
  core := ⟨h.core.mask.symm, h.core.pageTable.symm, h.core.held.symm⟩
  scheduler := h.scheduler.symm
  memory := h.memory.symm
  archive := h.archive.symm
  timer := h.timer.symm
  bus := h.bus.symm
  trampoline := h.trampoline.symm

theorem trans (h : k.Alike k') (h' : k'.Alike k'') : k.Alike k'' where
  core :=
    { mask := h'.core.mask.trans h.core.mask
      pageTable := h'.core.pageTable.trans h.core.pageTable
      held := h'.core.held.trans h.core.held }
  scheduler := h'.scheduler.trans h.scheduler
  memory := h'.memory.trans h.memory
  archive := h'.archive.trans h.archive
  timer := h'.timer.trans h.timer
  bus := h'.bus.trans h.bus
  trampoline := h'.trampoline.trans h.trampoline

/-- The same change of the scheduler keeps kernels alike. -/
theorem with_scheduler (h : k.Alike k') (s : Scheduler) :
    Alike { k with scheduler := s } { k' with scheduler := s } :=
  { h with scheduler := rfl }

end Alike

/-- Printing takes the lock of the console and lets go of it. -/
theorem alike_print (k : Kernel) : k.Alike k.print where
  core := Core.agrees_release rfl rfl
  scheduler := rfl
  memory := rfl
  archive := rfl
  timer := rfl
  bus := rfl
  trampoline := rfl

/-- What is done under the lock of the scheduler is all that is done. -/
theorem alike_update {α : Type} {f : Scheduler → α × Scheduler} {result : α} {s : Scheduler}
    (h : f k.scheduler = (result, s)) :
    (k.update f).1 = result ∧ Alike { k with scheduler := s } (k.update f).2 := by
  have hresult : (k.update f).1 = (f k.scheduler).1 := rfl
  have hscheduler : (k.update f).2.scheduler = (f k.scheduler).2 := rfl
  rw [h] at hresult hscheduler
  exact ⟨hresult, Core.agrees_release rfl rfl, hscheduler, rfl, rfl, rfl, rfl, rfl⟩

end Kernel

/-! ## Tasks that can be named -/

namespace Scheduler

/-- The task is ready, waits or runs. -/
def Present (s : Scheduler) (id : TaskId) : Prop :=
  id ∈ s.store.ready.ids ∨ id ∈ s.store.wait.ids ∨ s.current = some id

instance (s : Scheduler) (id : TaskId) : Decidable (s.Present id) :=
  inferInstanceAs (Decidable (_ ∨ _ ∨ _))

/-- A lookup finds who can be found on a queue, and who runs. -/
theorem Settled.lookup?_isSome_iff {s : Scheduler} (h : s.Settled) (id : TaskId) :
    (s.lookup? id).isSome = true ↔ s.Present id := by
  have hrunning :
      (if s.current = some id then s.store.get? id else none).isSome = true ↔
        s.current = some id := by
    split
    · next hcurrent =>
      obtain ⟨task, hget, -⟩ := h.get?_current hcurrent
      simp [hget, hcurrent]
    · next hother => simp [hother]
  rw [lookup?, Option.isSome_or, Bool.or_eq_true, h.filed.linked.isSome_findQueued?_iff, hrunning,
    or_assoc]
  rfl

theorem Settled.lookup?_of_present {s : Scheduler} (h : s.Settled) {id : TaskId}
    (hpresent : s.Present id) :
    ∃ task, s.lookup? id = some task ∧ s.store.get? id = some task := by
  obtain ⟨task, hfound⟩ := Option.isSome_iff_exists.1 ((h.lookup?_isSome_iff id).2 hpresent)
  exact ⟨task, hfound, get?_of_lookup? hfound⟩

theorem Settled.lookup?_of_not_present {s : Scheduler} (h : s.Settled) {id : TaskId}
    (habsent : ¬ s.Present id) : s.lookup? id = none := by
  rw [← h.lookup?_isSome_iff id, Option.isSome_iff_ne_none, ne_eq, not_not] at habsent
  exact habsent

end Scheduler

/-! ## Raising a signal -/

/-- The task with signal `n` pending as well. -/
def Task.raise (task : Task) (n : Nat) : Task :=
  { task with signals := { task.signals with
      pending := task.signals.pending ||| BitVec.twoPow 32 n } }

theorem Task.raise_comm (task : Task) (m n : Nat) :
    (task.raise m).raise n = (task.raise n).raise m := by
  have hor : task.signals.pending ||| BitVec.twoPow 32 m ||| BitVec.twoPow 32 n =
      task.signals.pending ||| BitVec.twoPow 32 n ||| BitVec.twoPow 32 m := by
    rw [BitVec.or_assoc, BitVec.or_comm (BitVec.twoPow 32 m), ← BitVec.or_assoc]
  simp only [Task.raise, hor]

theorem Task.raise_raise (task : Task) (n : Nat) : (task.raise n).raise n = task.raise n := by
  simp only [Task.raise, BitVec.or_assoc, BitVec.or_self]

namespace TaskStore

/-- Changes that commute on each task commute in the store. -/
theorem modify_comm (s : TaskStore) (id id' : TaskId) {f g : Task → Task}
    (hf : ∀ t, (f t).id = t.id) (hg : ∀ t, (g t).id = t.id) (hfg : ∀ t, g (f t) = f (g t)) :
    (s.modify id f).modify id' g = (s.modify id' g).modify id f := by
  simp only [modify, List.map_map]
  refine congrArg (fun tasks => { s with tasks }) (List.map_congr_left fun t _ => ?_)
  simp only [Function.comp_apply]
  cases hid : t.id == id <;> cases hid' : t.id == id' <;>
    simp only [hid, hid', hf, hg, hfg, Bool.false_eq_true, if_false, if_true]

theorem modify_modify_self (s : TaskStore) (id : TaskId) {f : Task → Task}
    (hf : ∀ t, (f t).id = t.id) (hff : ∀ t, f (f t) = f t) :
    (s.modify id f).modify id f = s.modify id f := by
  simp only [modify, List.map_map]
  refine congrArg (fun tasks => { s with tasks }) (List.map_congr_left fun t _ => ?_)
  simp only [Function.comp_apply]
  cases hid : t.id == id <;> simp only [hid, hf, hff, Bool.false_eq_true, if_false, if_true]

end TaskStore

namespace Scheduler

/-- The scheduler in which signal `n` is pending in the task `id` as well. -/
def raise (s : Scheduler) (id : TaskId) (n : Nat) : Scheduler := s.modify id (·.raise n)

theorem raise_comm (s : Scheduler) (id id' : TaskId) (m n : Nat) :
    (s.raise id m).raise id' n = (s.raise id' n).raise id m :=
  congrArg (fun store => { s with store }) (s.store.modify_comm id id' (f := (·.raise m))
    (g := (·.raise n)) (fun _ => rfl) (fun _ => rfl) fun task => task.raise_comm m n)

theorem raise_raise (s : Scheduler) (id : TaskId) (n : Nat) :
    (s.raise id n).raise id n = s.raise id n :=
  congrArg (fun store => { s with store }) (s.store.modify_modify_self id (f := (·.raise n))
    (fun _ => rfl) fun task => task.raise_raise n)

/-! ## Terminating a task -/

section

variable {P Q : Type} [Platform P] [Platform Q] {s : Scheduler} {id : TaskId}

theorem switchTo_scheduler (store : TaskStore) (prev next : TaskId) (irqState irqState' : Word) :
    (switchTo store prev next irqState).2 = (switchTo store prev next irqState').2 := by
  rw [switchTo, switchTo]
  split <;> rfl

/-- The platform has no say in which task runs next. -/
theorem schedule_scheduler (s : Scheduler) (hw : P) (hw' : Q) :
    (s.schedule hw).2.1 = (s.schedule hw').2.1 := by
  rw [schedule, schedule]
  dsimp only
  cases s.current with
  | none => rfl
  | some prev =>
    dsimp only
    cases s.store.ready.front? with
    | none => rfl
    | some next =>
      dsimp only
      split
      · rfl
      · cases fileOutgoing s.store prev with
        | error e => rfl
        | ok store =>
          have hsame := switchTo_scheduler store prev next (Platform.irqDisable hw).1
            (Platform.irqDisable hw').1
          dsimp only
          generalize switchTo store prev next (Platform.irqDisable hw).1 = r at hsame ⊢
          generalize switchTo store prev next (Platform.irqDisable hw').1 = r' at hsame ⊢
          obtain ⟨result, s₁⟩ := r
          obtain ⟨result', s₂⟩ := r'
          cases result <;> cases result' <;> exact hsame

theorem terminate_scheduler (s : Scheduler) (id : TaskId) (hw : P) (hw' : Q) :
    (s.terminate id hw).2.1 = (s.terminate id hw').2.1 := by
  rw [terminate, terminate]
  split
  · rfl
  · dsimp only
    split
    · exact schedule_scheduler _ hw hw'
    · rfl

theorem terminate_of_not_present (h : s.Settled) (habsent : ¬ s.Present id) (hw : P) :
    (s.terminate id hw).2.1 = s := by
  simp only [terminate, h.lookup?_of_not_present habsent]

/-- Terminating succeeds for the tasks that are present. -/
theorem terminate_result (h : s.Settled) (id : TaskId) (hw : P) :
    (s.terminate id hw).1.map (fun _ => ()) =
      if s.Present id then .ok () else .error (.notFound id) := by
  split
  · next hpresent =>
    obtain ⟨task, hfound, -⟩ := h.lookup?_of_present hpresent
    by_cases hcurrent : s.current = some id
    · have hexited := h.setState hcurrent .exited (by simp)
      obtain ⟨outcome, s', hw', heq, -⟩ := schedule_settled hexited hw
      simp only [terminate, hfound, if_pos hcurrent, heq]
      rfl
    · simp only [terminate, hfound, if_neg hcurrent]
      rfl
  · next habsent =>
    simp only [terminate, h.lookup?_of_not_present habsent]
    rfl

/-- Terminating a task touches no other one but the task that takes over from it. -/
theorem get?_terminate_of_ne (h : s.Settled) (hw : P) {other : TaskId} (hne : other ≠ id)
    (hidle : s.current = some id → (s.terminate id hw).2.1.current ≠ some other) :
    (s.terminate id hw).2.1.store.get? other = s.store.get? other := by
  cases hfound : s.lookup? id with
  | none => simp only [terminate, hfound]
  | some task =>
    have hget := get?_of_lookup? hfound
    have hmarked (kind : TaskState) :
        (s.store.setState id kind).get? other = s.store.get? other := by
      rw [TaskStore.get?_setState, if_neg hne]
    by_cases hcurrent : s.current = some id
    · have hexited := h.setState hcurrent .exited (by simp)
      simp only [terminate, hfound, if_pos hcurrent] at hidle ⊢
      rcases schedule_handedOver hexited.seated hw with
        ⟨-, hw', heq⟩ | ⟨next, rest, outcome, s', hw', -, heq, -, handed⟩
      · rw [heq]
        exact hmarked .exited
      · rw [heq] at hidle ⊢
        have hnext : other ≠ next := by
          rintro rfl
          exact hidle hcurrent handed.current
        have hprev : s.current ≠ some other := by
          rw [hcurrent]
          exact fun heq => hne (Option.some.inj heq).symm
        exact (handed.others other hnext hprev).trans (hmarked .exited)
    · simp only [terminate, hfound, if_neg hcurrent]
      rw [TaskStore.get?_enqueue .zombie (TaskStore.get?_setState_self hget .exited), if_neg hne]
      exact hmarked .exited

/-- With interrupts masked, a decision leaves the core as it was. -/
theorem schedule_core {L : Type} (s : Scheduler) {core : Core L} (hmask : core.mask = irqMaskBit) :
    core.Agrees (s.schedule core).2.2 := by
  rcases s.schedule_platform core with hresumed | hswitched
  · rw [hresumed]
    exact ⟨rfl, rfl, rfl⟩
  -- Only a switch leaves interrupts masked.
  · rw [hswitched]
    exact ⟨hmask.symm, rfl, rfl⟩

theorem terminate_core {L : Type} (s : Scheduler) (id : TaskId) {core : Core L}
    (hmask : core.mask = irqMaskBit) : core.Agrees (s.terminate id core).2.2 := by
  rw [terminate]
  split
  · exact ⟨rfl, rfl, rfl⟩
  · dsimp only
    split
    · exact schedule_core _ hmask
    · exact ⟨rfl, rfl, rfl⟩

end

end Scheduler

/-! ## The two requests -/

namespace Kernel

variable {k : Kernel} {id : TaskId} {signum : Int}

theorem Alike.irqRestore {k' : Kernel} (h : k.Alike k') (mask : Word) :
    (k.irqRestore mask).Alike (k'.irqRestore mask) :=
  { h with core := { h.core with mask := rfl } }

/-- Carrying out a decision changes the mask word at most, and that is put back afterwards. -/
theorem alike_complete (k : Kernel) (result : Except SchedulerError Outcome) (mask : Word) :
    (k.irqRestore mask).Alike ((k.complete result).irqRestore mask) := by
  cases result with
  | error e => exact k.alike_print.irqRestore mask
  | ok outcome => cases outcome <;> exact ⟨⟨rfl, rfl, rfl⟩, rfl, rfl, rfl, rfl, rfl, rfl⟩

/-- What is done under a lock is all that is done. -/
theorem alike_withLock {α : Type} (k : Kernel) (lock : KernelLock) {f : Kernel → α × Kernel}
    {s : Scheduler}
    (h : Alike { k with scheduler := s, core := (k.core.acquire lock).2 }
      (f { k with core := (k.core.acquire lock).2 }).2) :
    Alike { k with scheduler := s } (k.withLock lock f).2 :=
  { h with core := Core.agrees_release h.core.held h.core.pageTable }

/-- Killing does to the scheduler what termination does, and fails where nobody is found. -/
theorem kill_alike (h : k.scheduler.Settled) (id : TaskId) :
    (k.kill id).1 = (if k.scheduler.Present id then .ok () else .error (.notFound id)) ∧
      Alike { k with scheduler := (k.scheduler.terminate id k.core).2.1 } (k.kill id).2 := by
  let locked := (k.irqDisable.2.core.acquire KernelLock.scheduler).2
  have hresult := Scheduler.terminate_result h id locked
  have hscheduler := Scheduler.terminate_scheduler k.scheduler id locked k.core
  have hcore : locked.Agrees (k.scheduler.terminate id locked).2.2 :=
    Scheduler.terminate_core k.scheduler id rfl
  have hstored : Alike
      { k with scheduler := (k.scheduler.terminate id k.core).2.1, core := locked }
      { k with
        scheduler := (k.scheduler.terminate id locked).2.1
        core := (k.scheduler.terminate id locked).2.2 } :=
    ⟨hcore, hscheduler, rfl, rfl, rfl, rfl, rfl⟩
  rw [kill]
  dsimp only
  constructor
  · have hmap (result : Except SchedulerError Termination) :
        (result.map Termination.outcome).map (fun _ => ()) = result.map fun _ => () := by
      cases result <;> rfl
    rw [← hresult, hmap, withLock]
    dsimp only
    split <;> rfl
  · have hstart : Alike { k with scheduler := (k.scheduler.terminate id k.core).2.1 }
        (Kernel.irqRestore { k.irqDisable.2 with
          scheduler := (k.scheduler.terminate id k.core).2.1 } k.irqDisable.1) :=
      ⟨⟨rfl, rfl, rfl⟩, rfl, rfl, rfl, rfl, rfl, rfl⟩
    refine (hstart.trans (Alike.irqRestore ?_ _)).trans (alike_complete _ _ _)
    apply alike_withLock
    dsimp only
    split
    · exact hstored.trans (alike_print _)
    · exact hstored

theorem signalSlot_of_le {n : Nat} (hlow : 1 ≤ n) (hhigh : n ≤ 31) :
    signalSlot n = .ok ⟨n, Nat.lt_succ_of_le hhigh⟩ := by
  have hbounds : 0 < (n : Int) ∧ (n : Int) < Layout.signalSlots := by
    rw [Layout.signalSlots]
    omega
  rw [signalSlot, dif_pos hbounds]
  rfl

theorem signalSlot_of_not_le {n : Nat} (h : ¬ (1 ≤ n ∧ n ≤ 31)) :
    signalSlot n = .error (.invalid n) := by
  have hbounds : ¬ (0 < (n : Int) ∧ (n : Int) < Layout.signalSlots) := by
    rw [Layout.signalSlots]
    omega
  rw [signalSlot, dif_neg hbounds]

theorem killTask_alike {P : Type} [Platform P] (h : k.scheduler.Settled) (id : TaskId) (hw : P) :
    (k.killTask id).1 = (if k.scheduler.Present id then .ok 0 else .error (.noSuchTask id)) ∧
      Alike { k with scheduler := (k.scheduler.terminate id hw).2.1 } (k.killTask id).2 := by
  obtain ⟨hresult, halike⟩ := kill_alike h id
  rw [Scheduler.terminate_scheduler k.scheduler id k.core hw] at halike
  rw [killTask]
  generalize k.kill id = killed at hresult halike
  obtain ⟨result, k'⟩ := killed
  cases result with
  | ok _ =>
    split at hresult
    · next hpresent =>
      rw [if_pos hpresent]
      exact ⟨rfl, halike⟩
    · cases hresult
  | error e =>
    split at hresult
    · cases hresult
    · next habsent =>
      rw [if_neg habsent]
      exact ⟨rfl, halike⟩

/-- A signal that exists becomes pending in a task that is present. -/
theorem postSignal_raise (h : k.scheduler.Settled) {id : TaskId} (hpresent : k.scheduler.Present id)
    {n : Nat} (hlow : 1 ≤ n) (hhigh : n ≤ 31) :
    (k.postSignal id n).1 = .ok 0 ∧
      Alike { k with scheduler := k.scheduler.raise id n } (k.postSignal id n).2 := by
  obtain ⟨task, hfound, hget⟩ := h.lookup?_of_present hpresent
  have hpost : task.signals.post n = (.ok (), (task.raise n).signals) := by
    rw [SignalState.post, signalSlot_of_le hlow hhigh]
    rfl
  have hraise : (k.scheduler.modify id fun t => { t with signals := (task.raise n).signals }) =
      k.scheduler.raise id n :=
    Scheduler.modify_congr h.filed.linked hget rfl
  apply alike_update
  simp only [hfound, hpost, hraise]

/-- Otherwise nothing has happened. -/
theorem postSignal_refused (h : k.scheduler.Settled) {id : TaskId} {n : Nat}
    (hrefused : ¬ (k.scheduler.Present id ∧ 1 ≤ n ∧ n ≤ 31)) :
    ∃ e, (k.postSignal id n).1 = .error e ∧ k.Alike (k.postSignal id n).2 := by
  by_cases hpresent : k.scheduler.Present id
  · obtain ⟨task, hfound, -⟩ := h.lookup?_of_present hpresent
    have hpost : task.signals.post n = (.error (.invalid n), task.signals) := by
      rw [SignalState.post, signalSlot_of_not_le fun hle => hrefused ⟨hpresent, hle⟩]
    refine ⟨.signal (.invalid n), alike_update ?_⟩
    simp only [hfound, hpost]
  · refine ⟨.noSuchTask id, alike_update ?_⟩
    rw [h.lookup?_of_not_present hpresent]

end Kernel

/-! ## Calls -/

namespace Scheduler

/-- The word is the number of a task that is present. -/
def Names (s : Scheduler) (number : Word) : Prop :=
  number.toNat < 2 ^ 32 ∧ s.Present ⟨number.toNat⟩

/-- The first word names a task, and the second one is a signal for it. -/
def TakesSignal (s : Scheduler) (number signum : Word) : Prop :=
  s.Names number ∧ 1 ≤ signum.toNat ∧ signum.toNat ≤ 31

instance (s : Scheduler) (number : Word) : Decidable (s.Names number) :=
  inferInstanceAs (Decidable (_ ∧ _))

instance (s : Scheduler) (number signum : Word) : Decidable (s.TakesSignal number signum) :=
  inferInstanceAs (Decidable (_ ∧ _))

/-- The scheduler after a call that posts a signal. -/
def signalled (s : Scheduler) (number signum : Word) : Scheduler :=
  if s.TakesSignal number signum then s.raise ⟨number.toNat⟩ signum.toNat else s

/-- Who is there to be named does not depend on what signals are pending. -/
theorem takesSignal_signalled (s : Scheduler) (number signum number' signum' : Word) :
    (s.signalled number signum).TakesSignal number' signum' ↔ s.TakesSignal number' signum' := by
  rw [signalled]
  split
  · exact Iff.rfl
  · exact Iff.rfl

theorem signalled_signalled (s : Scheduler) (number signum : Word) :
    (s.signalled number signum).signalled number signum = s.signalled number signum := by
  have hagain := s.takesSignal_signalled number signum number signum
  by_cases htakes : s.TakesSignal number signum
  · rw [signalled, if_pos (hagain.2 htakes), signalled, if_pos htakes, raise_raise]
  · rw [signalled, if_neg fun h => htakes (hagain.1 h)]

theorem signalled_comm (s : Scheduler) (number signum number' signum' : Word) :
    (s.signalled number signum).signalled number' signum' =
      (s.signalled number' signum').signalled number signum := by
  have hfirst := s.takesSignal_signalled number signum number' signum'
  have hsecond := s.takesSignal_signalled number' signum' number signum
  rw [signalled.eq_def (s.signalled number signum), signalled.eq_def (s.signalled number' signum'),
    if_congr hfirst rfl rfl, if_congr hsecond rfl rfl, signalled, signalled]
  split
  · split
    · exact raise_comm _ _ _ _ _
    · rfl
  · rfl

end Scheduler

namespace Kernel

variable {k : Kernel} {frame : TrapFrame}

theorem reply_ok {result : Except SystemCallError Word × Kernel} {value : Word}
    (h : result.1 = .ok value) :
    reply frame result = (.resume (frame.setReg 0 value), result.2) := by
  obtain ⟨outcome, k'⟩ := result
  cases h
  rfl

theorem reply_error {result : Except SystemCallError Word × Kernel} {e : SystemCallError}
    (h : result.1 = .error e) :
    reply frame result = (.resume (frame.setReg 0 (BitVec.allOnes 64)), result.2.print) := by
  obtain ⟨outcome, k'⟩ := result
  cases h
  rfl

/-- A call that posts a signal is read as such if both its arguments are small enough. -/
theorem decode_sigKill (number : frame.x.get 8 = 9) :
    ((frame.x.get 0).toNat < 2 ^ 32 ∧ (frame.x.get 1).toNat < 2 ^ 31 ∧
      SystemCall.decode frame = .sigKill ⟨(frame.x.get 0).toNat⟩ (frame.x.get 1).toNat) ∨
    (¬ ((frame.x.get 0).toNat < 2 ^ 32 ∧ (frame.x.get 1).toNat < 2 ^ 31) ∧
      ∃ value, SystemCall.decode frame = .badArgument 9 value) := by
  have hnumber : frame.x[8] = 9 := number
  have hcode : (9 : Word).toNat = 9 := rfl
  simp only [SystemCall.decode, hnumber, hcode]
  by_cases hid : (frame.x.get 0).toNat < 2 ^ 32
  · have htask : SystemCall.taskIdOf? frame.x[0] = some ⟨(frame.x.get 0).toNat⟩ := if_pos hid
    rw [htask]
    by_cases hsmall : (frame.x.get 1).toNat < 2 ^ 31
    · have hsignum : SystemCall.signumOf? frame.x[1] = some (frame.x.get 1).toNat := if_pos hsmall
      rw [hsignum]
      exact Or.inl ⟨hid, hsmall, rfl⟩
    · have hsignum : SystemCall.signumOf? frame.x[1] = none := if_neg hsmall
      rw [hsignum]
      exact Or.inr ⟨fun h => hsmall h.2, _, rfl⟩
  · have htask : SystemCall.taskIdOf? frame.x[0] = none := if_neg hid
    rw [htask]
    exact Or.inr ⟨fun h => hid h.1, _, rfl⟩

/-- A call that kills a task is read as such if its argument is small enough. -/
theorem decode_kill (number : frame.x.get 8 = 7) :
    ((frame.x.get 0).toNat < 2 ^ 32 ∧
      SystemCall.decode frame = .kill ⟨(frame.x.get 0).toNat⟩) ∨
    (¬ (frame.x.get 0).toNat < 2 ^ 32 ∧
      ∃ value, SystemCall.decode frame = .badArgument 7 value) := by
  have hnumber : frame.x[8] = 7 := number
  have hcode : (7 : Word).toNat = 7 := rfl
  simp only [SystemCall.decode, hnumber, hcode]
  by_cases hid : (frame.x.get 0).toNat < 2 ^ 32
  · have htask : SystemCall.taskIdOf? frame.x[0] = some ⟨(frame.x.get 0).toNat⟩ := if_pos hid
    rw [htask]
    exact Or.inl ⟨hid, rfl⟩
  · have htask : SystemCall.taskIdOf? frame.x[0] = none := if_neg hid
    rw [htask]
    exact Or.inr ⟨hid, _, rfl⟩

/-- What posting a signal leaves in x0 and in the scheduler. -/
theorem dispatch_sigKill (h : k.scheduler.Settled) (number : frame.x.get 8 = 9) :
    ∃ k', k.dispatch frame = (.resume (frame.setReg 0
        (if k.scheduler.TakesSignal (frame.x.get 0) (frame.x.get 1) then 0
          else BitVec.allOnes 64)), k') ∧
      Alike { k with scheduler := k.scheduler.signalled (frame.x.get 0) (frame.x.get 1) } k' := by
  rw [Scheduler.signalled]
  rcases decode_sigKill number with ⟨hid, -, hdecode⟩ | ⟨hwide, value, hdecode⟩
  · rw [dispatch, hdecode]
    by_cases htakes : k.scheduler.TakesSignal (frame.x.get 0) (frame.x.get 1)
    · rw [if_pos htakes, if_pos htakes]
      obtain ⟨⟨-, hpresent⟩, hlow, hhigh⟩ := htakes
      obtain ⟨hresult, halike⟩ := postSignal_raise h hpresent hlow hhigh
      exact ⟨_, reply_ok hresult, halike⟩
    · rw [if_neg htakes, if_neg htakes]
      obtain ⟨e, hresult, halike⟩ := postSignal_refused h
        (fun hle => htakes ⟨⟨hid, hle.1⟩, hle.2⟩)
      exact ⟨_, reply_error hresult, halike.trans (alike_print _)⟩
  · have htakes : ¬ k.scheduler.TakesSignal (frame.x.get 0) (frame.x.get 1) :=
      fun htakes => hwide ⟨htakes.1.1, htakes.2.2.trans_lt (by decide)⟩
    rw [dispatch, hdecode, if_neg htakes, if_neg htakes]
    exact ⟨_, rfl, k.alike_print⟩

/-- What killing a task leaves in x0 and in the scheduler. -/
theorem dispatch_kill {P : Type} [Platform P] (h : k.scheduler.Settled)
    (number : frame.x.get 8 = 7) (hw : P) :
    ∃ k', k.dispatch frame = (.resume (frame.setReg 0
        (if k.scheduler.Names (frame.x.get 0) then 0 else BitVec.allOnes 64)), k') ∧
      Alike { k with scheduler :=
        if k.scheduler.Names (frame.x.get 0) then
          (k.scheduler.terminate ⟨(frame.x.get 0).toNat⟩ hw).2.1
        else k.scheduler } k' := by
  rcases decode_kill number with ⟨hid, hdecode⟩ | ⟨hwide, value, hdecode⟩
  · rw [dispatch, hdecode]
    obtain ⟨hresult, halike⟩ := killTask_alike h ⟨(frame.x.get 0).toNat⟩ hw
    by_cases hnames : k.scheduler.Names (frame.x.get 0)
    · rw [if_pos hnames.2] at hresult
      rw [if_pos hnames, if_pos hnames]
      exact ⟨_, reply_ok hresult, halike⟩
    · have hpresent : ¬ k.scheduler.Present ⟨(frame.x.get 0).toNat⟩ :=
        fun hpresent => hnames ⟨hid, hpresent⟩
      rw [if_neg hpresent] at hresult
      rw [Scheduler.terminate_of_not_present h hpresent] at halike
      rw [if_neg hnames, if_neg hnames]
      exact ⟨_, reply_error hresult, halike.trans (alike_print _)⟩
  · have hnames : ¬ k.scheduler.Names (frame.x.get 0) := fun hnames => hwide hnames.1
    rw [dispatch, hdecode, if_neg hnames, if_neg hnames]
    exact ⟨_, rfl, k.alike_print⟩

/-- A signal that was posted before does not show in the answer to the next one. -/
theorem dispatch_sigKill_twice (h : k.scheduler.Settled) {frame' : TrapFrame}
    (number : frame.x.get 8 = 9) (number' : frame'.x.get 8 = 9) :
    ((k.dispatch frame).2.dispatch frame').1 = (k.dispatch frame').1 ∧
      Alike
        { k with
          scheduler := (k.scheduler.signalled (frame.x.get 0) (frame.x.get 1)).signalled
            (frame'.x.get 0) (frame'.x.get 1) }
        ((k.dispatch frame).2.dispatch frame').2 := by
  have h₁ := settled_dispatch h frame
  obtain ⟨k₁, heq, halike⟩ := dispatch_sigKill h number
  obtain ⟨k₂, heq₂, -⟩ := dispatch_sigKill h number'
  rw [heq] at h₁ ⊢
  obtain ⟨k', heq', halike'⟩ := dispatch_sigKill h₁ number'
  have hscheduler := halike.scheduler
  dsimp only at hscheduler
  rw [hscheduler] at heq' halike'
  rw [heq', heq₂]
  constructor
  · rw [if_congr (k.scheduler.takesSignal_signalled _ _ _ _) rfl rfl]
  · exact (halike.with_scheduler _).trans halike'

/-! ## The main result -/

/-- In every kernel that can come to be, the two calls change no register but x0. Posting leaves
    zero there if its arguments are a task that is ready, waits or runs and a signal from 1 to 31;
    then that signal has become pending in that task, and otherwise x0 is all ones and nothing has
    changed. A signal that is posted again changes nothing more, and the order in which signals
    are posted does not matter. Killing leaves zero in x0 under the same condition on the task, and
    the scheduler as termination leaves it, where every other task but the one that takes over
    is as it was. -/
theorem task_calls_act_on_named_task (reachable : k.Reachable) (frame : TrapFrame) :
    let number := frame.x.get 0
    let signum := frame.x.get 1
    let id : TaskId := ⟨number.toNat⟩
    (frame.x.get 8 = 9 →
      (∃ k', k.dispatch frame = (.resume (frame.setReg 0
          (if k.scheduler.TakesSignal number signum then 0 else BitVec.allOnes 64)), k') ∧
        Alike { k with scheduler :=
          if k.scheduler.TakesSignal number signum then k.scheduler.raise id signum.toNat
          else k.scheduler } k') ∧
      (((k.dispatch frame).2.dispatch frame).1 = (k.dispatch frame).1 ∧
        (k.dispatch frame).2.Alike ((k.dispatch frame).2.dispatch frame).2) ∧
      ∀ frame' : TrapFrame, frame'.x.get 8 = 9 →
        ((k.dispatch frame).2.dispatch frame').1 = (k.dispatch frame').1 ∧
        ((k.dispatch frame').2.dispatch frame).1 = (k.dispatch frame).1 ∧
        Alike ((k.dispatch frame).2.dispatch frame').2
          ((k.dispatch frame').2.dispatch frame).2) ∧
    (frame.x.get 8 = 7 →
      ∃ k', k.dispatch frame = (.resume (frame.setReg 0
          (if k.scheduler.Names number then 0 else BitVec.allOnes 64)), k') ∧
        (∀ {P : Type} [Platform P] (hw : P),
          Alike { k with scheduler :=
            if k.scheduler.Names number then (k.scheduler.terminate id hw).2.1
            else k.scheduler } k') ∧
        ∀ other, other ≠ id →
          (k.scheduler.current = some id → k'.scheduler.current ≠ some other) →
          k'.scheduler.store.get? other = k.scheduler.store.get? other) := by
  intro number signum id
  have h := reachable.settled
  refine ⟨fun hcall => ⟨dispatch_sigKill h hcall, ?_, ?_⟩, fun hcall => ?_⟩
  · obtain ⟨hanswer, htwice⟩ := dispatch_sigKill_twice h hcall hcall
    obtain ⟨k₁, heq, honce⟩ := dispatch_sigKill h hcall
    rw [Scheduler.signalled_signalled] at htwice
    refine ⟨hanswer, Alike.trans ?_ htwice⟩
    rw [heq]
    exact honce.symm
  · intro frame' hcall'
    obtain ⟨hanswer, hforth⟩ := dispatch_sigKill_twice h hcall hcall'
    obtain ⟨hanswer', hback⟩ := dispatch_sigKill_twice h hcall' hcall
    rw [Scheduler.signalled_comm] at hforth
    exact ⟨hanswer, hanswer', hforth.symm.trans hback⟩
  · obtain ⟨k', heq, halike⟩ := dispatch_kill h hcall k.core
    refine ⟨k', heq, fun hw => ?_, fun other hne hidle => ?_⟩
    · rw [Scheduler.terminate_scheduler k.scheduler id hw k.core]
      exact halike
    · rw [halike.scheduler] at hidle ⊢
      dsimp only at hidle ⊢
      split
      · next hnames =>
        rw [if_pos hnames] at hidle
        exact Scheduler.get?_terminate_of_ne h k.core hne hidle
      · rfl

/-- The kernel after a request to the scheduler, with sixteen frames to take from. -/
def requested (k : Kernel) (request : Request ImageTable) : Kernel :=
  { k with scheduler :=
      (k.scheduler.answer (⟨.zero, .ofPages 16⟩ : Memory FramePool) Recorder.new request).2.1 }

/-- The idle task runs and a second task is ready. -/
def idleAndReady : Kernel :=
  (poweredOn.requested (.init ⟨kernelBase⟩)).requested (.create ⟨kernelBase⟩ pageSize)

theorem idleAndReady_reachable : idleAndReady.Reachable := by
  have started : poweredOn.Reachable := .start rfl
  have idle : (poweredOn.requested (.init ⟨kernelBase⟩)).Reachable :=
    started.request _ _ _ rfl
  exact idle.request _ _ _ trivial

/-- Signal 10 for the second task becomes pending there, and killing that task leaves the idle
    task alone. -/
theorem task_calls_act_on_named_task_ready :
    let post := ((TrapFrame.zero.setReg 8 9).setReg 0 1).setReg 1 10
    let kill := (TrapFrame.zero.setReg 8 7).setReg 0 1
    idleAndReady.Reachable ∧
      (∃ k', idleAndReady.dispatch post = (.resume (post.setReg 0 0), k') ∧
        Alike { idleAndReady with scheduler := idleAndReady.scheduler.raise ⟨1⟩ 10 } k') ∧
      ∃ k', idleAndReady.dispatch kill = (.resume (kill.setReg 0 0), k') ∧
        k'.scheduler.store.get? ⟨0⟩ = idleAndReady.scheduler.store.get? ⟨0⟩ := by
  intro post kill
  have htakes : idleAndReady.scheduler.TakesSignal (post.x.get 0) (post.x.get 1) := by
    decide +kernel
  have hnames : idleAndReady.scheduler.Names (kill.x.get 0) := by decide +kernel
  have hcurrent : idleAndReady.scheduler.current = some ⟨0⟩ := by decide +kernel
  obtain ⟨hpost, -⟩ := task_calls_act_on_named_task idleAndReady_reachable post
  obtain ⟨-, hkill⟩ := task_calls_act_on_named_task idleAndReady_reachable kill
  obtain ⟨⟨k₁, heq₁, halike⟩, -⟩ := hpost rfl
  obtain ⟨k₂, heq₂, -, hothers⟩ := hkill rfl
  rw [if_pos htakes] at heq₁ halike
  rw [if_pos hnames] at heq₂
  refine ⟨idleAndReady_reachable, ⟨k₁, heq₁, halike⟩, k₂, heq₂, hothers ⟨0⟩ (by decide) ?_⟩
  rw [hcurrent]
  exact fun heq => absurd heq (by decide)

end Kernel

end TaskKernel
