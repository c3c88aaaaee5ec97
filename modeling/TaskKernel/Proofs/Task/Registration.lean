/-
  TaskKernel.Proofs.Task.Registration

  Installing signal handlers in a task. A handler is put in its slot before the page that
  handlers return through is mapped, and taken out again when that fails; slots, flag and
  tree agree all the same. In every course of registrations, deliveries and returns a call
  that fails leaves what it found, and a task with a handler shows the page of the return
  code to user mode.
-/
import TaskKernel.Proofs.PageTable.Copies
import TaskKernel.Proofs.Signal.Delivery
import TaskKernel.Proofs.Task.LaidOut

namespace TaskKernel

section

variable {F : Type} [FrameSource F] {L : FrameLedger F} {roots : Set PhysAddr}
  {mem mem' : Memory F} {trampoline : PhysAddr}

/-! ## Tables of a task that was built -/

/-- Whatever is mapped, the tables stay in order and the space keeps its root. -/
theorem FrameLedger.Carries.of_map (h : L.Carries mem roots) {space space' : AddressSpace}
    (hspace : space.root ∈ roots) {va : VirtAddr} {pa : PhysAddr} {size : Nat} {flags : Flags}
    {result : Except MapError Unit}
    (hmap : space.map mem va pa size flags = (result, space', mem')) :
    L.Carries mem' roots ∧ space'.root = space.root := by
  have hcarries := h.map_carries hspace va pa size flags
  rw [hmap] at hcarries
  exact ⟨hcarries, AddressSpace.root_of_map hmap⟩

namespace Task

theorem mapLayout_carries (h : L.Carries mem roots) {space space' : AddressSpace}
    (hspace : space.root ∈ roots) {kernelStack userStack : Stack} {entry : VirtAddr}
    {imageSize : Nat}
    (hok : mapLayout space mem kernelStack userStack entry imageSize = (.ok (), space', mem')) :
    L.Carries mem' roots ∧ space'.root = space.root := by
  obtain ⟨space₁, mem₁, space₂, mem₂, image, user, kernel⟩ := mapLayout_ok hok
  obtain ⟨h₁, hroot₁⟩ := h.of_map hspace image
  obtain ⟨h₂, hroot₂⟩ := h₁.of_map (hroot₁ ▸ hspace) user
  obtain ⟨h₃, hroot₃⟩ := h₂.of_map (hroot₂ ▸ hroot₁ ▸ hspace) kernel
  exact ⟨h₃, hroot₃.trans (hroot₂.trans hroot₁)⟩

theorem buildSpace_carries (h : L.Carries mem roots) {kernelStack userStack : Stack}
    {entry : VirtAddr} {imageSize : Nat} {space : AddressSpace}
    (hok : buildSpace mem kernelStack userStack entry imageSize = (.ok space, mem')) :
    L.Carries mem' (insert space.root roots) := by
  obtain ⟨space₁, mem₁, hnew, hlayout⟩ := buildSpace_ok hok
  rcases h.new_cases with ⟨_, heq, -⟩ | ⟨_, _, heq, -, hcarries, -⟩
  · cases heq.symm.trans hnew
  · cases heq.symm.trans hnew
    obtain ⟨hcarries', hroot⟩ := mapLayout_carries hcarries (Set.mem_insert _ _) hlayout
    rwa [hroot]

/-- A task that was built has its tables in order, whatever its image. -/
theorem build_carries (hvalid : L.valid mem.frames) {id : TaskId} {entry : VirtAddr}
    {imageSize : Nat} {task : Task}
    (hbuild : Task.build mem id entry imageSize = (.ok task, mem')) :
    L.Carries mem' {task.space.root} := by
  cases build_end hbuild with
  | @built kernelBase userBase mem₁ mem₂ _ _ kernel user space holding =>
    have hvalid₁ := L.valid_allocate mem.frames Layout.kernelStackSize hvalid
    rw [frames_of_allocate kernel] at hvalid₁
    have hvalid₂ := L.valid_allocate mem₁.frames Layout.userStackSize hvalid₁
    rw [frames_of_allocate user] at hvalid₂
    -- Before its root there is no table at all.
    have hcarries := buildSpace_carries ⟨hvalid₂, forest_empty mem₂.ram _⟩ space
    rwa [insert_empty_eq] at hcarries

theorem signals_of_build {id : TaskId} {entry : VirtAddr} {imageSize : Nat} {task : Task}
    (hbuild : Task.build mem id entry imageSize = (.ok task, mem')) : task.signals = .new := by
  rw [Task.build] at hbuild
  split at hbuild
  · cases hbuild
  · dsimp only at hbuild
    split at hbuild
    · cases hbuild
    · split at hbuild
      · cases hbuild
      · cases hbuild
        rfl

end Task

/-! ## The page of the return code -/

/-- The call asks for one page only, so when it fails it has written none. -/
theorem pageLeaf_of_failed_trampoline (hcarries : L.Carries mem roots)
    (haligned : trampoline.pageOffset = 0) (hbelow : trampoline.toNat < 2 ^ 48)
    {space space' : AddressSpace} (hspace : space.root ∈ roots) {e : MapError}
    (hmap : space.map mem Layout.trampolineWindow trampoline pageSize .userCodeReadOnly =
      (.error e, space', mem')) (va : VirtAddr) :
    pageLeaf mem'.ram space.root va = pageLeaf mem.ram space.root va := by
  have bounds := (trampolineCall_aligned haligned hbelow).inBounds
  obtain ⟨written, result, _, _, heq, served⟩ := MapCall.served_map hcarries bounds space hspace
  cases heq.symm.trans hmap
  have hnone (va : VirtAddr) : ¬ InPages Layout.trampolineWindow written va := by
    have hwrote := served.wrote
    cases hwrote with
    | front pages rest =>
        obtain ⟨stop, htouch, hout⟩ := rest
        intro hin
        have hpage := (trampolineCall_touches_iff trampoline va).1 (pages va hin)
        rw [trampolineCall_touches_iff] at htouch
        refine hout ?_
        rw [InPages] at hin ⊢
        rwa [htouch, ← hpage]
    | nothing =>
        rintro ⟨hle, hlt⟩
        omega
  obtain ⟨low, hlow, hsame⟩ := exists_low_pageLeaf va
  rw [hsame, hsame, served.pageLeaf_eq hspace hlow, if_neg fun hin => hnone low hin.2]

/-! ## One registration -/

/-- How a request to install a handler ends. One that fails has at most added tables to the
    space; one that succeeds has changed one handler, and leaves at most on the page of the
    return code. -/
inductive Registration (task : Task) (mem : Memory F) (signum : Int) (addr : Word) :
    Except HandlerError Word × Task × Memory F → Prop
  | failed {error : HandlerError} {tables : Nat} {mem' : Memory F}
      (more : task.space.tables ≤ tables)
      (same : ∀ va, task.space.leaf mem'.ram va = task.space.leaf mem.ram va) :
      Registration task mem signum addr
        (.error error, { task with space := { task.space with tables } }, mem')
  | installed {n : SignalSlot} {tables : Nat} {mem' : Memory F}
      (slot : signalSlot signum = .ok n) (catchable : n.val ≠ killSignal)
      (more : task.space.tables ≤ tables)
      (same : ∀ va, va.toNat < 2 ^ 48 → va.frameNumber ≠ Layout.trampolineWindow.frameNumber →
        task.space.leaf mem'.ram va = task.space.leaf mem.ram va) :
      Registration task mem signum addr
        (.ok (task.signals.handlers.get n).address,
          { task.withHandler n (.ofAddress addr) with space := { task.space with tables } }, mem')

/-- A task whose handlers can return: if one is a user function, the page of the return code is
    mapped, and the flag that says so is right. The signal that cannot be caught terminates. -/
structure Guarded (L : FrameLedger F) (trampoline : PhysAddr) (task : Task) (mem : Memory F) :
    Prop where
  carries : L.Carries mem {task.space.root}
  fatal : ∀ n : SignalSlot, n.val = killSignal → task.signals.handlers.get n = .terminate
  flagged : ∀ n : SignalSlot, (task.signals.handlers.get n).isUser = true →
    task.signals.trampolineMapped = true
  shown : task.signals.trampolineMapped = true →
    pageLeaf mem.ram task.space.root Layout.trampolineWindow =
      some ((trampolineCall trampoline).descriptor Layout.trampolineWindow)

/-- A handler is installed, with the page of the return code mapped if one needs it. -/
theorem Guarded.install {task : Task} (guarded : Guarded L trampoline task mem) {signum : Int}
    {n : SignalSlot} (hslot : signalSlot signum = .ok n) (hne : n.val ≠ killSignal) (addr : Word)
    {tables : Nat} (more : task.space.tables ≤ tables)
    (carries : L.Carries mem' {task.space.root})
    (shown : (task.signals.trampolineMapped || (Handler.ofAddress addr).isUser) = true →
      pageLeaf mem'.ram task.space.root Layout.trampolineWindow =
        some ((trampolineCall trampoline).descriptor Layout.trampolineWindow))
    (same : ∀ va : VirtAddr, va.toNat < 2 ^ 48 →
      va.frameNumber ≠ Layout.trampolineWindow.frameNumber →
        pageLeaf mem'.ram task.space.root va = pageLeaf mem.ram task.space.root va) :
    let task' : Task :=
      { task.withHandler n (.ofAddress addr) with space := { task.space with tables } }
    Registration task mem signum addr (.ok (task.signals.handlers.get n).address, task', mem') ∧
      Guarded L trampoline task' mem' := by
  refine ⟨.installed hslot hne more fun va hva hpage => ?_, carries, fun m hm => ?_,
    fun m hm => ?_, shown⟩
  · rw [AddressSpace.leaf_eq_leafAt, AddressSpace.leaf_eq_leafAt]
    exact same va hva hpage
  · have hother : n.val ≠ m.val := fun heq => hne (heq.trans hm)
    exact (Vector.getElem_set_ne n.isLt m.isLt hother).trans (guarded.fatal m hm)
  · show (task.signals.trampolineMapped || (Handler.ofAddress addr).isUser) = true
    rw [Bool.or_eq_true]
    by_cases heq : n.val = m.val
    · obtain rfl : n = m := Fin.ext heq
      have hset : (task.signals.handlers.set n (.ofAddress addr)).get n = .ofAddress addr :=
        Vector.getElem_set_self n.isLt
      exact Or.inr (hset ▸ hm)
    · have hset : (task.signals.handlers.set n (.ofAddress addr)).get m =
          task.signals.handlers.get m :=
        Vector.getElem_set_ne n.isLt m.isLt heq
      exact Or.inl (guarded.flagged m (hset ▸ hm))

theorem Guarded.register {task : Task} (guarded : Guarded L trampoline task mem)
    (haligned : trampoline.pageOffset = 0) (hbelow : trampoline.toNat < 2 ^ 48) (signum : Int)
    (addr : Word) :
    Registration task mem signum addr (task.registerHandler mem signum addr trampoline) ∧
      Guarded L trampoline (task.registerHandler mem signum addr trampoline).2.1
        (task.registerHandler mem signum addr trampoline).2.2 := by
  have hroot : task.space.root ∈ ({task.space.root} : Set PhysAddr) := Set.mem_singleton _
  have htables := task.space.map_tables_le mem Layout.trampolineWindow trampoline pageSize
    .userCodeReadOnly
  have hend := task.registerHandler_end mem signum addr trampoline
  generalize task.registerHandler mem signum addr trampoline = outcome at hend
  cases hend with
  | refused => exact ⟨.failed (Nat.le_refl _) fun _ => rfl, guarded⟩
  | @unmapped _ space mem' call =>
      rw [call] at htables
      obtain ⟨root, tables⟩ := space
      obtain ⟨hcarries, rfl⟩ := guarded.carries.of_map hroot call
      have hleaves := pageLeaf_of_failed_trampoline guarded.carries haligned hbelow hroot call
      refine ⟨.failed htables fun va => ?_, hcarries, guarded.fatal, guarded.flagged,
        fun hflag => (hleaves _).trans (guarded.shown hflag)⟩
      rw [AddressSpace.leaf_eq_leafAt, AddressSpace.leaf_eq_leafAt]
      exact hleaves va
  | @mapped n space mem' slot catchable _ call =>
      rw [call] at htables
      obtain ⟨root, tables⟩ := space
      obtain ⟨hcarries, rfl⟩ := guarded.carries.of_map hroot call
      -- The one page is mapped now, and no leaf beside it has changed.
      have finished := MapCall.finished_of_ok guarded.carries
        (trampolineCall_aligned haligned hbelow).inBounds hroot call
      have hshown := finished.inside Layout.trampolineWindow (by decide)
        ((trampolineCall_touches_iff trampoline _).2 rfl)
      exact guarded.install slot catchable addr htables hcarries (fun _ => hshown)
        fun va hva hpage => finished.outside va hva fun htouch =>
          hpage ((trampolineCall_touches_iff trampoline va).1 htouch)
  | unneeded slot catchable unflagged =>
      exact guarded.install slot catchable addr (Nat.le_refl _) guarded.carries
        (fun hmapped => guarded.shown (unflagged ▸ hmapped)) fun _ _ _ => rfl

/-! ## Runs -/

/-- Registrations, posted signals, deliveries and returns lead from `start` and `mem₀` to a task
    and its memory. In between frames may go to others and run out, in any way that the ledger
    admits. -/
inductive HandlerRun (L : FrameLedger F) (trampoline : PhysAddr) (start : Task) (mem₀ : Memory F) :
    Task → Memory F → Prop
  | start : HandlerRun L trampoline start mem₀ start mem₀
  | register {task : Task} {mem : Memory F} (run : HandlerRun L trampoline start mem₀ task mem)
      (signum : Int) (addr : Word) : HandlerRun L trampoline start mem₀
        (task.registerHandler mem signum addr trampoline).2.1
        (task.registerHandler mem signum addr trampoline).2.2
  | post {task : Task} {mem : Memory F} (run : HandlerRun L trampoline start mem₀ task mem)
      (signum : Int) : HandlerRun L trampoline start mem₀
        { task with signals := (task.signals.post signum).2 } mem
  | deliver {task : Task} {mem : Memory F} (run : HandlerRun L trampoline start mem₀ task mem)
      (frame : TrapFrame) : HandlerRun L trampoline start mem₀
        { task with signals := (task.signals.deliver frame).2.1 } mem
  | sigreturn {task : Task} {mem : Memory F} (run : HandlerRun L trampoline start mem₀ task mem)
      (frame : TrapFrame) : HandlerRun L trampoline start mem₀
        { task with signals := (task.signals.sigreturn frame).2.1 } mem
  | others {task : Task} {mem : Memory F} (run : HandlerRun L trampoline start mem₀ task mem)
      (frames : F) (valid : L.valid frames) (more : L.held mem.frames ⊆ L.held frames) :
      HandlerRun L trampoline start mem₀ task { mem with frames }

theorem Guarded.of_built {id : TaskId} {entry : VirtAddr} {imageSize : Nat} {task : Task}
    (hvalid : L.valid mem.frames)
    (hbuild : Task.build mem id entry imageSize = (.ok task, mem')) :
    Guarded L trampoline task mem' := by
  have hsignals := Task.signals_of_build hbuild
  have hinitial (n : SignalSlot) : task.signals.handlers.get n = Handler.initial n.val := by
    rw [hsignals]
    exact Vector.getElem_ofFn n.isLt
  refine ⟨Task.build_carries hvalid hbuild, fun n hn => ?_, fun n hn => ?_, fun hmapped => ?_⟩
  · rw [hinitial, hn]
    rfl
  · rw [hinitial, Handler.initial] at hn
    split at hn <;> cases hn
  · rw [hsignals] at hmapped
    cases hmapped

/-- Signals come and go without the handlers. -/
theorem Guarded.of_signals {task : Task} (guarded : Guarded L trampoline task mem)
    {signals : SignalState} (hhandlers : signals.handlers = task.signals.handlers)
    (hmapped : signals.trampolineMapped = task.signals.trampolineMapped) :
    Guarded L trampoline { task with signals } mem where
  carries := guarded.carries
  fatal n hn := hhandlers ▸ guarded.fatal n hn
  flagged n hn := hmapped.trans (guarded.flagged n (hhandlers ▸ hn))
  shown hflag := guarded.shown (hmapped ▸ hflag)

theorem HandlerRun.guarded {start task : Task} {mem₀ : Memory F}
    (run : HandlerRun L trampoline start mem₀ task mem) (haligned : trampoline.pageOffset = 0)
    (hbelow : trampoline.toNat < 2 ^ 48) (guarded : Guarded L trampoline start mem₀) :
    Guarded L trampoline task mem := by
  induction run with
  | start => exact guarded
  | register _ signum addr ih => exact (ih.register haligned hbelow signum addr).2
  | @post task _ _ signum ih =>
      refine ih.of_signals ?_ ?_ <;> (rw [SignalState.post]; split <;> rfl)
  | @deliver task _ _ frame ih =>
      exact ih.of_signals (task.signals.deliver_keeps frame).1 (task.signals.deliver_keeps frame).2
  | @sigreturn task _ _ frame ih =>
      refine ih.of_signals ?_ ?_ <;> (rw [SignalState.sigreturn]; split <;> rfl)
  | others _ frames valid more ih =>
      have carries := ih.carries.forest.mono (Set.Subset.refl _) more
      exact ⟨⟨valid, carries⟩, ih.fatal, ih.flagged, ih.shown⟩

/-! ## The main result -/

/-- Where handlers are told to return to, the task shows the page of the return code, and user
    mode may not write there. -/
structure Task.ReturnsThrough (task : Task) (ram : Ram) (trampoline : PhysAddr) : Prop where
  leads : task.space.translate ram Layout.trampolineWindow = some trampoline
  guarded : ∃ d, task.space.leaf ram Layout.trampolineWindow = some d ∧
    d.flags.contains .user = true ∧ d.flags.contains .readOnly = true

theorem Guarded.returnsThrough {task : Task} (guarded : Guarded L trampoline task mem)
    (haligned : trampoline.pageOffset = 0) (hbelow : trampoline.toNat < 2 ^ 48) {n : SignalSlot}
    (huser : (task.signals.handlers.get n).isUser = true) :
    task.ReturnsThrough mem.ram trampoline := by
  have aligned := trampolineCall_aligned haligned hbelow
  have hleaf : task.space.leaf mem.ram Layout.trampolineWindow =
      some ((trampolineCall trampoline).descriptor Layout.trampolineWindow) := by
    rw [AddressSpace.leaf_eq_leafAt]
    exact guarded.shown (guarded.flagged n huser)
  refine ⟨?_, _, hleaf, ?_, ?_⟩
  · rw [AddressSpace.translate_of_leaf hleaf (MapCall.isValid_descriptor _ _),
      MapCall.address_descriptor aligned.inBounds]
    exact congrArg some aligned.target_start
  · rw [aligned.flags_descriptor]
    show (Flags.userCodeReadOnly ||| .page ||| .accessed).contains .user = true
    decide
  · rw [aligned.flags_descriptor]
    show (Flags.userCodeReadOnly ||| .page ||| .accessed).contains .readOnly = true
    decide

/-- Whatever course registrations, deliveries and returns have taken for a task that was built:
    a registration that fails leaves signals and leaves as they were, and one that succeeds
    changes the one handler and returns the address of the handler before. The signal that
    cannot be caught terminates. If a handler is a user function, the page of the return code is
    mapped where handlers return to, for user mode to read, and every delivery to a handler
    returns there. -/
theorem registrations_atomic {start task : Task} {mem₀ mem₁ : Memory F} {id : TaskId}
    {entry : VirtAddr} {imageSize : Nat} (hvalid : L.valid mem₀.frames)
    (hbuild : Task.build mem₀ id entry imageSize = (.ok start, mem₁))
    (haligned : trampoline.pageOffset = 0) (hbelow : trampoline.toNat < 2 ^ 48)
    (run : HandlerRun L trampoline start mem₁ task mem) :
    (∀ signum addr, Registration task mem signum addr
      (task.registerHandler mem signum addr trampoline)) ∧
    task.signals.handler? killSignal = some .terminate ∧
    ((∃ n : SignalSlot, (task.signals.handlers.get n).isUser = true) →
      task.ReturnsThrough mem.ram trampoline) ∧
    ∀ frame n signals after, task.signals.deliver frame = (.handler n, signals, after) →
      after.x.get 30 = Layout.trampolineWindow.raw ∧ task.ReturnsThrough mem.ram trampoline := by
  have guarded := run.guarded haligned hbelow (.of_built hvalid hbuild)
  refine ⟨fun signum addr => (guarded.register haligned hbelow signum addr).1, ?_, ?_, ?_⟩
  · exact congrArg some (guarded.fatal ⟨9, by decide⟩ rfl)
  · rintro ⟨n, huser⟩
    exact guarded.returnsThrough haligned hbelow huser
  · intro frame n signals after heq
    cases hinside : task.signals.inHandler with
    | true =>
        rw [SignalState.deliver_of_inHandler hinside] at heq
        cases heq
    | false =>
        have hdelivered := SignalState.deliver_delivered hinside frame
        rw [heq] at hdelivered
        cases hdelivered with
        | @handler slot entry due caught =>
            have huser : (task.signals.handlers.get slot).isUser = true := by
              rw [caught]
              rfl
            exact ⟨(frame.entered_enterHandler entry slot).link,
              guarded.returnsThrough haligned hbelow huser⟩

end

/-- A task with an image of one page, in a pool of sixteen pages. -/
def smallBuild : Except TaskError Task × Memory FramePool :=
  Task.build ⟨.zero, .ofPages 16⟩ ⟨0⟩ ⟨0x900000⟩ pageSize

/-- The task asks in vain for a handler of the signal that cannot be caught, has signal 2 ignored
    when no frame is left, and then installs a handler for it. -/
theorem registrations_atomic_retried :
    ∃ start task mem, smallBuild = (.ok start, smallBuild.2) ∧
      HandlerRun FramePool.ledger ⟨0x9000⟩ start smallBuild.2 task mem ∧
      task.signals.handler? 2 = some (.user ⟨0x1000⟩) ∧
      task.ReturnsThrough mem.ram ⟨0x9000⟩ := by
  have hfacts : smallBuild.1.map (fun start =>
      let refused := start.registerHandler smallBuild.2 9 0x400 ⟨0x9000⟩
      let spent : Memory FramePool := { refused.2.2 with frames := refused.2.2.frames.failAfter 0 }
      let ignored := refused.2.1.registerHandler spent 2 0 ⟨0x9000⟩
      (ignored.2.1.registerHandler ignored.2.2 2 0x1000 ⟨0x9000⟩).2.1.signals.handler? 2) =
      .ok (some (.user ⟨0x1000⟩)) := by
    decide +kernel
  have hvalid : FramePool.ledger.valid (⟨.zero, .ofPages 16⟩ : Memory FramePool).frames :=
    FramePool.fits_ofPages (by decide)
  have hbuild : Task.build (⟨.zero, .ofPages 16⟩ : Memory FramePool) ⟨0⟩ ⟨0x900000⟩ pageSize =
    smallBuild := rfl
  generalize smallBuild = built at hfacts hbuild
  obtain ⟨result, mem₁⟩ := built
  cases result with
  | error e => cases hfacts
  | ok start =>
      have asked : HandlerRun FramePool.ledger ⟨0x9000⟩ start mem₁ _ _ := .register .start 9 0x400
      have guarded := asked.guarded (by decide) (by decide) (.of_built hvalid hbuild)
      have spent := asked.others (FramePool.failAfter _ 0) guarded.carries.valid (Set.Subset.refl _)
      have run := (spent.register 2 0).register 2 0x1000
      obtain ⟨-, -, hreturns, -⟩ := registrations_atomic hvalid hbuild (by decide) (by decide) run
      have hhandler := Except.ok.inj hfacts
      refine ⟨start, _, _, rfl, run, hhandler, hreturns ⟨⟨2, by decide⟩, ?_⟩⟩
      exact congrArg (fun handler => handler.any Handler.isUser) hhandler

end TaskKernel
