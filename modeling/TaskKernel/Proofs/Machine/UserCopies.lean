/-
  TaskKernel.Proofs.Machine.UserCopies

  Copies on behalf of a live task. They go through for every range of the user half whose
  pages are mapped; whether user mode itself may read or write there is not asked. In
  particular the kernel stack of every task, which its leaf hides from user mode, can be
  read and written by copies on the task's behalf.
-/
import TaskKernel.Proofs.Machine.Separation
import TaskKernel.Proofs.PageTable.ByteAccess

namespace TaskKernel

namespace Machine

/-- No page of a live task leads to a table of its own. -/
theorem Isolated.clear {trampoline : PhysAddr} {start : FramePool} {m : Machine FramePool}
    (h : Isolated trampoline start.heldFrames m)
    (hlength : m.memory.frames.used.length = start.used.length)
    (hwithheld : start.Withholds trampoline) {task : Task}
    (htask : task ∈ m.scheduler.store.tasks) : task.space.Clear m.memory.ram := by
  intro va pa hpa path table hdepth hfound heq
  obtain ⟨d, hleaf, hframe, -⟩ := AddressSpace.place_of_translate hpa
  have hmem := holding_mem htask
  have hreached : Reached m.memory.ram (rootsOf m.holdings) task.space.root path table :=
    ⟨⟨task.holding, hmem, rfl⟩, hdepth, hfound⟩
  rw [hframe] at heq
  refine h.estate.carries.notMem_others hreached ?_
  rw [heq]
  rcases h.leaf_uses hmem (h.mayMap htask hleaf) with ⟨a, ha, hin⟩ | htrampoline
  · exact Or.inr ⟨a, mem_accounts_of_uses hmem ha, hin⟩
  -- A table is in use, and the pool never gave the page of the return code away.
  · rw [htrampoline] at heq ⊢
    refine Or.inl (FramePool.mem_heldFrames_of_withholds hlength hwithheld ?_)
    rw [← heq]
    exact (h.estate.carries.forest.held_of_reached hreached).1

/-- The window of a live task shows its kernel stack, hidden from user mode. -/
theorem Isolated.translate_window {trampoline : PhysAddr} {reserved : Set Nat} {m : Machine FramePool}
    (h : Isolated trampoline reserved m) {task : Task} (htask : task ∈ m.scheduler.store.tasks) :
    (∃ d, task.space.leaf m.memory.ram Layout.kernelStackWindow = some d ∧
      d.flags.contains .user = false) ∧
    task.space.translate m.memory.ram Layout.kernelStackWindow = some task.kernelStack.base := by
  have housed := h.estate.housed task.holding (holding_mem htask)
  have aligned := housed.placed.kernelStackCall_aligned
  have hleaf : task.space.leaf m.memory.ram Layout.kernelStackWindow =
      some task.holding.windowLeaf := by
    rw [AddressSpace.leaf_eq_leafAt]
    exact housed.window
  refine ⟨⟨_, hleaf, ?_⟩, ?_⟩
  · rw [Holding.windowLeaf, aligned.flags_descriptor]
    show (Flags.kernelData ||| .page ||| .accessed).contains .user = false
    decide
  · rw [AddressSpace.translate_of_leaf hleaf (MapCall.isValid_descriptor _ _), Holding.windowLeaf,
      MapCall.address_descriptor aligned.inBounds]
    exact congrArg some aligned.target_start

/-- After every run, copies for a live task ask whether its pages are mapped and nothing
    else: not whether user mode may read or write there. Its kernel stack is hidden from
    user mode, and copies reach all of it. -/
theorem user_copies_unchecked {P S : Type} [Platform P] [ImageSource S] [LawfulImageSource S]
    {trampoline : PhysAddr} (haligned : trampoline.pageOffset = 0)
    (hbelow : trampoline.toNat < 2 ^ 48) {start : Memory FramePool} (hfits : start.frames.Fits)
    (hwithheld : start.frames.Withholds trampoline) {m : Machine FramePool}
    (run : Run trampoline (GivesFreshImages (P := P) (S := S)) (fresh start) m) {task : Task}
    (htask : task ∈ m.scheduler.store.tasks) :
    (∀ va (buffer : List Byte), (task.space.copyFrom m.memory.ram va buffer).1 = .ok () ↔
      inUserSpace va buffer.length = true ∧
        task.space.Covers m.memory.ram va buffer.length) ∧
    (∀ va (bytes : List Byte),
      ((task.space.copyTo m.memory.ram va bytes).1 = .ok () ↔
        inUserSpace va bytes.length = true ∧ task.space.Covers m.memory.ram va bytes.length) ∧
      ∀ n, n ∉ task.space.framesUnder m.memory.ram va bytes.length →
        (task.space.copyTo m.memory.ram va bytes).2.frame n = m.memory.ram.frame n) ∧
    (∃ d, task.space.leaf m.memory.ram Layout.kernelStackWindow = some d ∧
      d.flags.contains .user = false) ∧
    ∀ bytes : List Byte, bytes.length ≤ Layout.kernelStackSize →
      task.space.copyFrom m.memory.ram Layout.kernelStackWindow bytes =
        (.ok (), m.memory.ram.readBytes task.kernelStack.base bytes.length) ∧
      task.space.copyTo m.memory.ram Layout.kernelStackWindow bytes =
        (.ok (), m.memory.ram.writeBytes task.kernelStack.base bytes) := by
  obtain ⟨log, audited, isolated⟩ := run.isolated haligned hbelow hfits
  have clear := isolated.clear audited.history.length_used hwithheld htask
  obtain ⟨hhidden, hwindow⟩ := isolated.translate_window htask
  refine ⟨task.space.copyFrom_ok_iff m.memory.ram, AddressSpace.copyTo_spec clear, hhidden, ?_⟩
  intro bytes hlength
  have hfit : Layout.kernelStackWindow.pageOffset + bytes.length ≤ pageSize := by
    rw [show Layout.kernelStackWindow.pageOffset = 0 by decide, Nat.zero_add]
    exact hlength
  have hin : inUserSpace Layout.kernelStackWindow bytes.length = true := by
    have hend :
        Layout.kernelStackWindow.toNat + Layout.kernelStackSize ≤ Layout.userSpaceEnd := by
      decide
    rw [inUserSpace, decide_eq_true_iff]
    omega
  exact ⟨AddressSpace.copyFrom_page hwindow hin hfit, AddressSpace.copyTo_page hwindow hin hfit⟩

/-- The idle task reads its kernel stack. -/
theorem user_copies_unchecked_idle :
    ∃ task, idleMachine.scheduler.store.get? ⟨0⟩ = some task ∧
      task.space.copyFrom idleMachine.memory.ram Layout.kernelStackWindow [0, 0] =
        (.ok (), idleMachine.memory.ram.readBytes task.kernelStack.base 2) := by
  let start : Memory FramePool := ⟨.zero, .ofPages 48⟩
  have hfits : start.frames.Fits := FramePool.fits_ofPages (by decide)
  obtain ⟨task, hget⟩ : ∃ task, idleMachine.scheduler.store.get? ⟨0⟩ = some task :=
    Option.isSome_iff_exists.1 (by decide +kernel)
  obtain ⟨-, -, -, hstack⟩ := user_copies_unchecked (by decide) (by decide) hfits
    (FramePool.withholds_of_lt (by decide)) run_idleMachine (TaskStore.mem_of_get? hget)
  exact ⟨task, hget, (hstack [0, 0] (by decide)).1⟩

/-- Copies for the idle task: its kernel stack, which its leaf hides from user mode, is read
    and overwritten, and so is the page of the return code, which is read-only. -/
theorem user_copies_pass_rights :
    ∃ task, idleMachine.scheduler.store.get? ⟨0⟩ = some task ∧
      (∃ d, task.space.leaf idleMachine.memory.ram Layout.kernelStackWindow = some d ∧
        d.flags.contains .user = false) ∧
      (task.space.copyFrom idleMachine.memory.ram Layout.kernelStackWindow [0]).1 = .ok () ∧
      idleMachine.memory.ram.byte task.kernelStack.base = 0 ∧
      (task.space.copyTo idleMachine.memory.ram Layout.kernelStackWindow [1]).2.byte
        task.kernelStack.base = 1 ∧
      (∃ d, task.space.leaf idleMachine.memory.ram Layout.trampolineWindow = some d ∧
        d.flags.contains .readOnly = true) ∧
      idleMachine.memory.ram.byte ⟨0x9000⟩ = 0 ∧
      (task.space.copyTo idleMachine.memory.ram Layout.trampolineWindow [1]).2.byte ⟨0x9000⟩ =
        1 := by
  let start : Memory FramePool := ⟨.zero, .ofPages 48⟩
  have hfits : start.frames.Fits := FramePool.fits_ofPages (by decide)
  have hfacts : (idleMachine.scheduler.store.get? ⟨0⟩).map (fun task =>
      (idleMachine.memory.ram.byte task.kernelStack.base,
        task.space.leaf idleMachine.memory.ram Layout.trampolineWindow,
        idleMachine.memory.ram.byte ⟨0x9000⟩)) = some (0, some ⟨0x94c7⟩, 0) := by
    decide +kernel
  obtain ⟨task, hget, htuple⟩ := Option.map_eq_some_iff.1 hfacts
  simp only [Prod.mk.injEq] at htuple
  obtain ⟨hbyte, hcode, hbyte'⟩ := htuple
  obtain ⟨-, -, isolated⟩ := run_idleMachine.isolated (by decide) (by decide) hfits
  obtain ⟨hhidden, hstack⟩ := isolated.translate_window (TaskStore.mem_of_get? hget)
  have hcode' := AddressSpace.translate_of_leaf hcode (by decide)
  have written (pa : PhysAddr) (ram : Ram) : (ram.writeBytes pa [1]).byte pa = 1 :=
    ram.byte_setByte_self pa 1
  refine ⟨task, hget, hhidden, ?_, hbyte, ?_, ⟨_, hcode, by decide⟩, hbyte', ?_⟩
  · rw [AddressSpace.copyFrom_page hstack (by decide) (by decide)]
  · rw [AddressSpace.copyTo_page hstack (by decide) (by decide)]
    exact written _ _
  · rw [AddressSpace.copyTo_page hcode' (by decide) (by decide)]
    exact written _ _

end Machine

end TaskKernel
