/-
  TaskKernel.Proofs.Task.Handlers

  The ways in which installing a signal handler can go. The slot is filled before the page that
  handlers return through is mapped, and filled with the handler from before when that fails; so
  a request that fails leaves the signals of the task as they were.
-/
import TaskKernel.Task.SignalHandlers

namespace TaskKernel

/-! ## Slots -/

namespace SignalState

variable {s : SignalState} {signum : Int} {n : SignalSlot}

theorem register_of_slot (hslot : signalSlot signum = .ok n) (hne : n.val ≠ killSignal)
    (handler : Handler) :
    s.register signum handler =
      (.ok (s.handlers.get n), { s with handlers := s.handlers.set n handler n.isLt }) := by
  rw [register, hslot]
  exact if_neg hne

/-- Putting the handler from before back undoes a registration. -/
theorem register_back (hslot : signalSlot signum = .ok n) (hne : n.val ≠ killSignal)
    (handler : Handler) :
    { s with handlers := s.handlers.set n handler n.isLt }.register signum (s.handlers.get n) =
      (.ok handler, s) := by
  have hprevious : (s.handlers.set n handler).get n = handler := Vector.getElem_set_self n.isLt
  have hback : (s.handlers.set n handler).set n (s.handlers.get n) = s.handlers := by
    rw [Vector.set_set]
    exact Vector.set_getElem_self n.isLt
  rw [register_of_slot hslot hne]
  dsimp only
  rw [hprevious, hback]

/-- A refused number changes nothing. -/
theorem register_refused (h : ∀ n, signalSlot signum = .ok n → n.val = killSignal)
    (handler : Handler) :
    ∃ e, s.register signum handler = (.error e, s) := by
  rw [register]
  cases hslot : signalSlot signum with
  | error e => exact ⟨e, rfl⟩
  | ok n => exact ⟨.uncatchable, if_pos (h n hslot)⟩

end SignalState

/-! ## Requests -/

/-- A flag that need not be raised stays as it is. -/
theorem or_eq_left_of_not {mapped user : Bool} (h : ¬(user && !mapped) = true) :
    (mapped || user) = mapped := by
  revert mapped user
  decide

namespace Task

variable {F : Type} [FrameSource F]

/-- The task with this handler in slot `n`, and the page of the return code flagged as mapped if
    the handler needs it. -/
def withHandler (task : Task) (n : SignalSlot) (handler : Handler) : Task :=
  { task with
    signals := { task.signals with
      handlers := task.signals.handlers.set n handler n.isLt
      trampolineMapped := task.signals.trampolineMapped || handler.isUser } }

/-- How a request to install a handler goes: the number is refused, or the page of the return
    code cannot be mapped and the handler from before is back, or the handler is installed, after
    mapping that page or where there was no need to. -/
inductive HandlerEnd (task : Task) (mem : Memory F) (signum : Int) (addr : Word)
    (trampoline : PhysAddr) : Except HandlerError Word × Task × Memory F → Prop
  | refused {e : SignalError} :
      HandlerEnd task mem signum addr trampoline (.error (.signal e), task, mem)
  | unmapped {e : MapError} {space : AddressSpace} {mem' : Memory F}
      (call : task.space.map mem Layout.trampolineWindow trampoline pageSize .userCodeReadOnly =
        (.error e, space, mem')) :
      HandlerEnd task mem signum addr trampoline (.error (.map e), { task with space }, mem')
  | mapped {n : SignalSlot} {space : AddressSpace} {mem' : Memory F}
      (slot : signalSlot signum = .ok n) (catchable : n.val ≠ killSignal)
      (user : (Handler.ofAddress addr).isUser = true)
      (call : task.space.map mem Layout.trampolineWindow trampoline pageSize .userCodeReadOnly =
        (.ok (), space, mem')) :
      HandlerEnd task mem signum addr trampoline
        (.ok (task.signals.handlers.get n).address,
          { task.withHandler n (.ofAddress addr) with space }, mem')
  | unneeded {n : SignalSlot} (slot : signalSlot signum = .ok n) (catchable : n.val ≠ killSignal)
      (unflagged : (task.signals.trampolineMapped || (Handler.ofAddress addr).isUser) =
        task.signals.trampolineMapped) :
      HandlerEnd task mem signum addr trampoline
        (.ok (task.signals.handlers.get n).address, task.withHandler n (.ofAddress addr), mem)

theorem registerHandler_end (task : Task) (mem : Memory F) (signum : Int) (addr : Word)
    (trampoline : PhysAddr) :
    HandlerEnd task mem signum addr trampoline
      (task.registerHandler mem signum addr trampoline) := by
  by_cases hslot : ∃ n, signalSlot signum = .ok n ∧ n.val ≠ killSignal
  · obtain ⟨n, hslot, hne⟩ := hslot
    rw [registerHandler, SignalState.register_of_slot hslot hne]
    dsimp only
    split
    · next hneeds =>
      obtain ⟨huser, hunmapped⟩ := Bool.and_eq_true_iff.1 hneeds
      have hflag : (task.signals.trampolineMapped || (Handler.ofAddress addr).isUser) = true := by
        rw [huser, Bool.or_true]
      cases hmap : task.space.map mem Layout.trampolineWindow trampoline pageSize
          .userCodeReadOnly with
      | mk result rest =>
        obtain ⟨space, mem'⟩ := rest
        cases result with
        | error e =>
          -- The handler from before is put back.
          dsimp only
          rw [SignalState.register_back hslot hne]
          exact .unmapped hmap
        | ok _ =>
          have hend := HandlerEnd.mapped hslot hne huser hmap
          rw [withHandler, hflag] at hend
          exact hend
    · next hneeds =>
      have hend : HandlerEnd task mem signum addr trampoline _ :=
        .unneeded hslot hne (or_eq_left_of_not hneeds)
      rw [withHandler, or_eq_left_of_not hneeds] at hend
      exact hend
  · have hrefused (n : SignalSlot) (hn : signalSlot signum = .ok n) : n.val = killSignal :=
      Decidable.not_not.1 fun hne => hslot ⟨n, hn, hne⟩
    obtain ⟨e, heq⟩ :=
      SignalState.register_refused (s := task.signals) hrefused (.ofAddress addr)
    rw [registerHandler, heq]
    exact .refused

end Task

end TaskKernel
