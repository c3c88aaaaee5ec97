/-
  TaskKernel.Proofs.Scheduler.ActiveTable

  The active table and the task that runs. A launch installs the table of its task and makes
  that task the running one; a switch names the contexts of the outgoing and the incoming
  task, and carrying it out installs the table of the latter; nothing else loads a table or
  changes the running task. So where the active table is that of the running task, it stays
  so for as long as every switch is carried out.
-/
import TaskKernel.Memory.FramePool
import TaskKernel.Proofs.Scheduler.Effects
import TaskKernel.Proofs.Scheduler.Placement
import TaskKernel.Proofs.Scheduler.Rooted

namespace TaskKernel

/-! ## Switches -/

/-- The switch that a decision asks for. -/
def Outcome.switch? : Outcome → Option Switch
  | .switch decision => some decision
  | _ => none

/-- The switch that an answer asks for. -/
def Answer.switch? : Answer → Option Switch
  | decided (.ok outcome) => outcome.switch?
  | terminated (.ok termination) => termination.outcome.switch?
  | _ => none

/-- Carries out the switch that an answer asks for, if it asks for one. -/
def Answer.carryOut {P : Type} [Platform P] (answer : Answer) (hw : P) : P :=
  answer.switch?.elim hw fun switch => switch.carryOut hw

/-- The switch leads away from the task that was running to the one that runs now; both are
    live, and it names their contexts. -/
structure Switch.Names (switch : Switch) (running : Option TaskId) (s : Scheduler) : Prop where
  outgoing : running = some switch.outgoing
  incoming : s.current = some switch.incoming
  outgoingContext : ∃ task, s.store.get? switch.outgoing = some task ∧
    task.context = switch.outgoingContext
  incomingContext : ∃ task, s.store.get? switch.incoming = some task ∧
    task.context = switch.incomingContext

/-- What is asked of a scheduler once the idle task runs. Left out are the two requests that
    change the running task and leave the table to the caller. -/
def Request.Ordinary {S : Type} : Request S → Prop
  | init _ => False
  | adopt _ _ => False
  | _ => True

namespace Scheduler

open TaskStore

/-- The active table is the root of the running task's space. -/
def Active (s : Scheduler) (hw : Recorder) : Prop :=
  s.currentTask?.map (·.space.root) = some hw.pageTable

instance (s : Scheduler) (hw : Recorder) : Decidable (s.Active hw) :=
  inferInstanceAs (Decidable (_ = _))

theorem active_iff {s : Scheduler} {hw : Recorder} : s.Active hw ↔
    ∃ id task, s.current = some id ∧ s.store.get? id = some task ∧
      hw.pageTable = task.space.root := by
  simp only [Active, currentTask?, Option.map_eq_some_iff, Option.bind_eq_some_iff]
  constructor
  · rintro ⟨task, ⟨id, hcurrent, hget⟩, hroot⟩
    exact ⟨id, task, hcurrent, hget, hroot.symm⟩
  · rintro ⟨id, task, hcurrent, hget, hroot⟩
    exact ⟨task, ⟨id, hcurrent, hget⟩, hroot.symm⟩

/-- How the running task and the active table can change before a switch is carried out. -/
inductive Passed (running : Option TaskId) (table : PhysAddr) :
    Answer → Scheduler → Recorder → Prop
  | kept {answer : Answer} {s : Scheduler} {hw : Recorder} (quiet : answer.switch? = none)
      (current : s.current = running) (loaded : hw.pageTable = table) : Passed running table answer s hw
  | switched {answer : Answer} {switch : Switch} {s : Scheduler} {hw : Recorder}
      (asked : answer.switch? = some switch) (names : switch.Names running s)
      (loaded : hw.pageTable = table) : Passed running table answer s hw
  | launched {target : LaunchTarget} {task : Task} {s : Scheduler} {hw : Recorder}
      (current : s.current = some target.task) (get : s.store.get? target.task = some task)
      (loaded : hw.pageTable = task.space.root) :
      Passed running table (.launched (.ok target)) s hw

/-! ## Scheduling decisions -/

section

variable {s : Scheduler}

theorem names_of_switchTo {store : TaskStore} {prev next : TaskId} {irqState : Word}
    {switch : Switch} {s' : Scheduler} (h : switchTo store prev next irqState = (.ok switch, s')) :
    switch.Names (some prev) s' := by
  simp only [switchTo] at h
  split at h
  · next p n hprev hnext =>
      cases h
      exact ⟨rfl, rfl, ⟨p, hprev, rfl⟩, ⟨n, hnext, rfl⟩⟩
  · cases h

theorem passed_of_schedule {id : TaskId} (hcurrent : s.current = some id) {hw hw' : Recorder}
    {outcome : Outcome} {s' : Scheduler} (h : s.schedule hw = (.ok outcome, s', hw')) :
    Passed s.current hw.pageTable (.decided (.ok outcome)) s' hw' := by
  rw [schedule, hcurrent] at h
  dsimp only at h
  split at h
  · cases h
    exact .kept rfl rfl rfl
  · split at h
    · cases h
      exact .kept rfl rfl rfl
    · split at h
      · cases h
      · split at h
        · cases h
        · next hswitch =>
            cases h
            rw [hcurrent]
            exact .switched rfl (names_of_switchTo hswitch) rfl

/-- An answer that asks for the same switch stands for the same change. -/
theorem Passed.relabel {running : Option TaskId} {table : PhysAddr} {answer answer' : Answer}
    {hw : Recorder} (h : Passed running table answer s hw) (hlaunched : answer.launched? = none)
    (hswitch : answer'.switch? = answer.switch?) : Passed running table answer' s hw := by
  cases h with
  | kept quiet current loaded => exact .kept (hswitch.trans quiet) current loaded
  | switched asked names loaded => exact .switched (hswitch.trans asked) names loaded
  | launched current get loaded => cases hlaunched

theorem passed_schedule (h : s.Settled) {id : TaskId} (hcurrent : s.current = some id)
    (hw : Recorder) :
    Passed s.current hw.pageTable (.decided (s.schedule hw).1) (s.schedule hw).2.1
      (s.schedule hw).2.2 := by
  obtain ⟨outcome, s', hw', heq, -⟩ := schedule_settled h hw
  have hpassed := passed_of_schedule hcurrent heq
  rwa [heq]

theorem passed_terminate (h : s.Settled) (id : TaskId) (hw : Recorder) :
    Passed s.current hw.pageTable (.terminated (s.terminate id hw).1) (s.terminate id hw).2.1
      (s.terminate id hw).2.2 := by
  rw [terminate]
  split
  · exact .kept rfl rfl rfl
  · dsimp only
    split
    · next hcurrent =>
        have hpassed := passed_schedule (h.setState hcurrent .exited (by simp)) hcurrent hw
        refine hpassed.relabel rfl ?_
        cases (Scheduler.schedule _ hw).1 <;> rfl
    · exact .kept rfl rfl rfl

theorem passed_exit (h : s.Settled) (hw : Recorder) :
    Passed s.current hw.pageTable (.decided (s.exit hw).1) (s.exit hw).2.1 (s.exit hw).2.2 := by
  rw [exit]
  split
  · exact .kept rfl rfl rfl
  · next id _ =>
      refine (passed_terminate h id hw).relabel rfl ?_
      dsimp only
      cases (s.terminate id hw).1 <;> rfl

theorem passed_blockCurrent (h : s.Settled) (hw : Recorder) :
    Passed s.current hw.pageTable (.decided (s.blockCurrent hw).1) (s.blockCurrent hw).2.1
      (s.blockCurrent hw).2.2 := by
  rw [blockCurrent]
  split
  · exact .kept rfl rfl rfl
  · next hcurrent => exact passed_schedule (h.setState hcurrent .blocked (by simp)) hcurrent hw

theorem current_tick (s : Scheduler) : s.tick.2.current = s.current := by
  rw [tick]
  split <;> rfl

theorem current_wake (s : Scheduler) (id : TaskId) : (s.wake id).2.current = s.current := by
  rw [wake]
  split
  · rfl
  · split
    · rfl
    · split <;> rfl

end

/-! ## Launches -/

section

variable {F S : Type} [FrameSource F] [ImageSource S] {s : Scheduler}

/-- A task whose holding is still there is found with the root that it had. -/
theorem get?_of_holdings {store store' : TaskStore} (h : store'.Linked)
    (hholdings : store.holdings ⊆ store'.holdings) {id : TaskId} {task : Task}
    (hget : store.get? id = some task) :
    ∃ task', store'.get? id = some task' ∧ task'.space.root = task.space.root := by
  have hmem := hholdings (List.mem_map.2 ⟨task, mem_of_get? hget, rfl⟩)
  obtain ⟨task', hget', hholding⟩ := h.get?_of_holding hmem
  have hid : task.holding.id = id := id_of_get? hget
  rw [hid] at hget'
  exact ⟨task', hget', congrArg Holding.root hholding⟩

/-- A launch that fails leaves table and running task alone; one that succeeds has installed the
    table of the task that it made the running one. -/
theorem passed_prepare (h : s.Settled) (mem : Memory F) (hw : Recorder) (images : S) (name : String)
    (mode : LaunchMode) :
    Passed s.current hw.pageTable (.launched (s.prepare mem hw images name mode).1)
      (s.prepare mem hw images name mode).2.1 (s.prepare mem hw images name mode).2.2.2 := by
  have hend := prepare_end h.seated mem hw images name mode
  generalize s.prepare mem hw images name mode = result at hend ⊢
  cases hend with
  | notFound size | noRoom size allocate | notBuilt size allocate build => exact .kept rfl rfl rfl
  | @started _ task _ _ _ size allocate build rearranged handed =>
      obtain ⟨hid, -⟩ := Task.fresh_of_build build
      obtain ⟨listed, hlisted, -, hget⟩ := handed.incoming
      cases ((get?_enlist h.filed.linked hid _).trans (if_pos rfl)).symm.trans hlisted
      refine .launched handed.current hget ?_
      show task.pageTable = task.space.root
      rw [Task.pageTable, Task.context_of_build build]
      rfl

/-! ## Every request -/

theorem passed_answer (h : s.Settled) {id : TaskId}
    (hcurrent : s.current = some id) (mem : Memory F) (hw : Recorder) (request : Request S)
    (hordinary : request.Ordinary) :
    Passed s.current hw.pageTable (s.answer mem hw request).1 (s.answer mem hw request).2.1
      (s.answer mem hw request).2.2.2 := by
  cases request with
  | init entry => cases hordinary
  | create entry imageSize => exact .kept rfl rfl rfl
  | prepare images name mode => exact passed_prepare h mem hw images name mode
  | schedule => exact passed_schedule h hcurrent hw
  | tick => exact .kept rfl (current_tick s) rfl
  | terminate id => exact passed_terminate h id hw
  | exit => exact passed_exit h hw
  | blockCurrent => exact passed_blockCurrent h hw
  | wake id => exact .kept rfl (current_wake s id) rfl
  | adopt id mode => cases hordinary
  | reap => exact .kept rfl rfl rfl

/-- The running task is there after any request, under the same root. -/
theorem Effect.get?_current {mem mem' : Memory F} {request : Request S} {answer : Answer}
    {s' : Scheduler} (effect : Effect s mem request answer s' mem') (h : s.Seated) (h' : s'.Seated)
    {id : TaskId} (hcurrent : s.current = some id) {task : Task}
    (hget : s.store.get? id = some task) :
    ∃ task', s'.store.get? id = some task' ∧ task'.space.root = task.space.root := by
  cases effect with
  | kept quiet holdings launched =>
      exact get?_of_holdings h'.linked (fun _ hheld => holdings ▸ hheld) hget
  | created asked build holdings | launched size allocate build holdings started =>
      refine get?_of_holdings h'.linked ?_ hget
      rw [holdings]
      exact List.subset_append_left _ _
  | notCreated asked build | notLaunched size allocate build | noRoom allocate =>
      exact ⟨task, hget, rfl⟩
  | reaped buried =>
      obtain ⟨found, hfound, hqueue, -⟩ := h.current id hcurrent
      obtain rfl : found = task := Option.some.inj (hfound.symm.trans hget)
      exact ⟨found, buried.get?_eq h.linked hget hqueue, rfl⟩

/-! ## From step to step -/

/-- A scheduler in order, with the running task on its own table. -/
structure InStep (s : Scheduler) (hw : Recorder) : Prop where
  settled : s.Settled
  rooted : s.store.Rooted
  active : s.Active hw

namespace InStep

variable {hw : Recorder}

theorem passed (h : s.InStep hw) (mem : Memory F) (request : Request S)
    (hordinary : request.Ordinary) :
    Passed s.current hw.pageTable (s.answer mem hw request).1 (s.answer mem hw request).2.1
      (s.answer mem hw request).2.2.2 := by
  obtain ⟨id, -, hcurrent, -, -⟩ := active_iff.1 h.active
  exact passed_answer h.settled hcurrent mem hw request hordinary

theorem step (h : s.InStep hw) (mem : Memory F) (request : Request S)
    (hordinary : request.Ordinary) :
    (s.answer mem hw request).2.1.InStep
      ((s.answer mem hw request).1.carryOut (s.answer mem hw request).2.2.2) := by
  have hpassed := h.passed mem request hordinary
  obtain ⟨effect, hseated⟩ := h.settled.seated.effect mem hw request
  have hrooted := rooted_answer h.rooted mem hw request
  have hadmits : s.Admits request := by
    cases request <;> trivial
  refine ⟨(h.settled.answered mem hw request hadmits).settled, hrooted, active_iff.2 ?_⟩
  obtain ⟨id, task, hcurrent, hget, htable⟩ := active_iff.1 h.active
  obtain ⟨task', hget', hroot⟩ := effect.get?_current h.settled.seated hseated hcurrent hget
  generalize s.answer mem hw request = result at hpassed hrooted hget' ⊢
  obtain ⟨answer, s', mem', hw'⟩ := result
  dsimp only at hpassed hrooted hget' ⊢
  rw [Answer.carryOut]
  cases hpassed with
  | kept quiet current loaded =>
      rw [quiet]
      exact ⟨id, task', current.trans hcurrent, hget', loaded.trans (htable.trans hroot.symm)⟩
  | @switched _ switch _ _ asked names loaded =>
      obtain ⟨incoming, hincoming, hcontext⟩ := names.incomingContext
      rw [asked]
      refine ⟨switch.incoming, incoming, names.incoming, hincoming, ?_⟩
      -- What is installed is the table in the context of the incoming task.
      rw [← hrooted incoming (mem_of_get? hincoming), Task.pageTable, hcontext]
      rfl
  | launched current get loaded => exact ⟨_, _, current, get, loaded⟩

end InStep

variable (F S) in
/-- The schedulers and platforms that ordinary requests lead to when every switch is carried
    out before the next request. Each request meets a memory of its own. -/
inductive Driven (s : Scheduler) (hw : Recorder) : Scheduler → Recorder → Prop
  | nil : Driven s hw s hw
  | step {s' : Scheduler} {hw' : Recorder} (driven : Driven s hw s' hw') (request : Request S)
      (mem : Memory F) (ordinary : request.Ordinary) :
      Driven s hw (s'.answer mem hw' request).2.1
        ((s'.answer mem hw' request).1.carryOut (s'.answer mem hw' request).2.2.2)

end

end Scheduler

section

variable {F S : Type} [FrameSource F] [ImageSource S]

/-- Take any scheduler that a run leads to, in which a task runs on its own table, and any
    requests from there on. After each of them the running task is on its own table; a switch
    that a request asks for names the contexts of the task that ran and of the one that runs,
    and both are live; a launch that fails leaves table and running task alone. -/
theorem running_task_on_own_table {log : List Answer} {s : Scheduler}
    (run : Run F Recorder S log s) {hw : Recorder} (hactive : s.Active hw) {s' : Scheduler}
    {hw' : Recorder} (driven : s.Driven F S hw s' hw') :
    s'.Active hw' ∧
    ∀ (request : Request S) (mem : Memory F), request.Ordinary →
      ∀ answer s'' mem'' hw'', s'.answer mem hw' request = (answer, s'', mem'', hw'') →
        s''.Active (answer.carryOut hw'') ∧
        (∀ switch, answer.switch? = some switch → switch.Names s'.current s'') ∧
        ∀ e, answer = .launched (.error e) →
          hw''.pageTable = hw'.pageTable ∧ s''.current = s'.current := by
  have hstep : s'.InStep hw' := by
    induction driven with
    | nil => exact ⟨run.settled, run.rooted, hactive⟩
    | step driven request mem ordinary ih => exact ih.step mem request ordinary
  refine ⟨hstep.active, fun request mem hordinary answer s'' mem'' hw'' heq => ?_⟩
  have hnext := hstep.step mem request hordinary
  have hpassed := hstep.passed mem request hordinary
  rw [heq] at hnext hpassed
  refine ⟨hnext.active, fun switch hswitch => ?_, fun e herror => ?_⟩
  · cases hpassed with
    | kept quiet current loaded => cases quiet.symm.trans hswitch
    | switched asked names loaded =>
        cases asked.symm.trans hswitch
        exact names
    | launched current get loaded => cases hswitch
  · subst herror
    cases hpassed with
    | kept quiet current loaded => exact ⟨loaded, current⟩
    | switched asked names loaded => cases asked

end

/-- The second of two tasks gets its turn and launches a third one, which then exits. -/
theorem running_task_on_own_table_launch :
    ∃ log s hw, Run FramePool Recorder ImageTable log s ∧ s.Active hw ∧
      ∃ s' hw', s.Driven FramePool ImageTable hw s' hw' ∧ s'.current = some ⟨2⟩ ∧ s'.Active hw' ∧
        hw'.pageTableLoads = 2 ∧ hw'.pageTable ≠ hw.pageTable ∧
        ∃ (mem : Memory FramePool) (switch : Switch),
          (s'.answer mem hw' (.exit : Request ImageTable)).1.switch? = some switch ∧
          switch.Names (some ⟨2⟩) (s'.answer mem hw' (.exit : Request ImageTable)).2.1 := by
  let mem : Memory FramePool := ⟨.zero, .ofPages 64⟩
  obtain ⟨log, s, hw, s', hw', run, driven, hactive, hcurrent, hloads, hne, hswitch⟩ :
      ∃ log s hw s' hw', Run FramePool Recorder ImageTable log s ∧
        s.Driven FramePool ImageTable hw s' hw' ∧ s.Active hw ∧ s'.current = some ⟨2⟩ ∧
        hw'.pageTableLoads = 2 ∧ hw'.pageTable ≠ hw.pageTable ∧
        (s'.answer mem hw' (.exit : Request ImageTable)).1.switch?.isSome := by
    have run := (Run.nil.step (.init ⟨kernelBase⟩) mem Recorder.new rfl).step
      (.create ⟨kernelBase⟩ pageSize : Request ImageTable) (mem.allocate (16 * pageSize)).2
      Recorder.new trivial
    have driven (s : Scheduler) (hw : Recorder) :=
      ((.nil : s.Driven FramePool ImageTable hw s hw).step .schedule mem trivial).step
        (.prepare ⟨[("init", [1, 2, 3])]⟩ "init" .spawn) (mem.allocate (32 * pageSize)).2 trivial
    exact ⟨_, _, { Recorder.new with pageTable := ⟨0x104000⟩ }, _, _, run, driven _ _,
      by decide +kernel⟩
  obtain ⟨hactive', hnext⟩ := running_task_on_own_table run hactive driven
  obtain ⟨switch, hswitch⟩ := Option.isSome_iff_exists.1 hswitch
  obtain ⟨-, hnames, -⟩ := hnext .exit mem trivial _ _ _ _ rfl
  exact ⟨log, s, hw, run, hactive, s', hw', driven, hcurrent, hactive', hloads, hne, mem, switch,
    hswitch, hcurrent ▸ hnames switch hswitch⟩

end TaskKernel
