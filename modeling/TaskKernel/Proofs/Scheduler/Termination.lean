/-
  TaskKernel.Proofs.Scheduler.Termination

  What becomes of a task that was terminated. It is exited until it is reaped: nothing wakes,
  adopts or dispatches it, and its number is not given out again. There is one way back. With
  nobody else ready a task that exits keeps the processor, and a request to block the running
  task then blocks it without a look at its state, after which it can be woken.
-/
import TaskKernel.Proofs.Scheduler.Fairness
import TaskKernel.Proofs.Scheduler.Launches

namespace TaskKernel

/-! ## States of tasks -/

namespace TaskStore

/-- The state of the live task with this number. -/
def stateOf? (s : TaskStore) (id : TaskId) : Option TaskState := (s.get? id).map (·.state)

theorem stateOf?_of_get? {s : TaskStore} {id : TaskId} {task : Task} (h : s.get? id = some task) :
    s.stateOf? id = some task.state := by
  rw [stateOf?, h, Option.map_some]

theorem stateOf?_congr {s s' : TaskStore} {id : TaskId} (h : s'.get? id = s.get? id) :
    s'.stateOf? id = s.stateOf? id := by
  rw [stateOf?, h, stateOf?]

theorem stateOf?_modify (s : TaskStore) (id id' : TaskId) {f : Task → Task}
    (hid : ∀ t, (f t).id = t.id) (hstate : ∀ t, (f t).state = t.state) :
    (s.modify id f).stateOf? id' = s.stateOf? id' := by
  rw [stateOf?, get?_modify s id id' hid, stateOf?]
  split
  · rw [Option.map_map]
    exact Option.map_congr fun task _ => hstate task
  · rfl

@[simp] theorem stateOf?_setQueueOf (s : TaskStore) (id id' : TaskId) (queue : Option QueueKind) :
    (s.setQueueOf id queue).stateOf? id' = s.stateOf? id' :=
  stateOf?_modify s id id' (fun _ => rfl) fun _ => rfl

theorem stateOf?_setState (s : TaskStore) (id id' : TaskId) (state : TaskState) :
    (s.setState id state).stateOf? id' =
      if id' = id then (s.stateOf? id').map (fun _ => state) else s.stateOf? id' := by
  rw [stateOf?, get?_setState, stateOf?]
  split
  · rw [Option.map_map, Option.map_map]
    rfl
  · rfl

/-- Queues and states are apart. -/
@[simp] theorem stateOf?_enqueue (s : TaskStore) (kind : QueueKind) (id id' : TaskId) :
    (s.enqueue kind id).2.stateOf? id' = s.stateOf? id' := by
  cases hget : s.get? id with
  | none => simp only [enqueue, hget]
  | some task =>
      rw [stateOf?, get?_enqueue kind hget, stateOf?]
      split
      · next heq => rw [heq, hget]; rfl
      · rfl

theorem stateOf?_remove (s : TaskStore) (kind : QueueKind) (id id' : TaskId) :
    (s.remove kind id).2.stateOf? id' = s.stateOf? id' := by
  rw [remove]
  split
  · rw [stateOf?_setQueueOf]
    exact stateOf?_congr (get?_setQueue s kind _ id')
  · rfl

end TaskStore

namespace Scheduler

open TaskStore

/-- Who has exited leaves off as one who has exited. -/
theorem Outgoing.leave_exited (mode : Outgoing) (task : Task) (h : task.state = .exited) :
    (mode.leave task).state = .exited := by
  cases mode with
  | keep => exact h
  | retire => rfl

/-! ## Retired tasks -/

/-- The task was created, and has exited or is gone. -/
structure Retired (s : Scheduler) (id : TaskId) : Prop where
  created : id.val < s.store.nextId
  ended : s.store.stateOf? id = none ∨ s.store.stateOf? id = some .exited

/-- The state of the task is as before, and it has not got the processor. -/
structure Unmoved (s : Scheduler) (id : TaskId) (s' : Scheduler) : Prop where
  state : s'.store.stateOf? id = s.store.stateOf? id
  seat : s'.current = some id → s.current = some id
  nextId : s.store.nextId ≤ s'.store.nextId

theorem Unmoved.refl (s : Scheduler) (id : TaskId) : s.Unmoved id s :=
  ⟨rfl, fun h => h, Nat.le_refl _⟩

theorem Unmoved.trans {s s₁ s' : Scheduler} {id : TaskId} (h : s.Unmoved id s₁)
    (h' : s₁.Unmoved id s') : s.Unmoved id s' :=
  ⟨h'.state.trans h.state, h.seat ∘ h'.seat, h.nextId.trans h'.nextId⟩

namespace Retired

variable {s s' : Scheduler} {id : TaskId}

theorem unmoved (h : s.Retired id) (hmoved : s.Unmoved id s') : s'.Retired id where
  created := Nat.lt_of_lt_of_le h.created hmoved.nextId
  ended := hmoved.state ▸ h.ended

theorem ne_of_get? (h : s.Retired id) {other : TaskId} {task : Task}
    (hget : s.store.get? other = some task) (hstate : task.state ≠ .exited) : id ≠ other := by
  rintro rfl
  rcases h.ended with hnone | hexited
  · rw [stateOf?_of_get? hget] at hnone
    cases hnone
  · rw [stateOf?_of_get? hget] at hexited
    exact hstate (Option.some.inj hexited)

/-- The tasks that wait for their turn are not retired. -/
theorem not_mem_ready (h : s.Retired id) (hsettled : s.Settled) : id ∉ s.store.ready.ids := by
  intro (hmem : id ∈ (s.store.queue .ready).ids)
  obtain ⟨task, hget, -, hready⟩ := hsettled.filed.get?_of_mem hmem
  exact h.ne_of_get? hget (by rw [hready]; simp [QueueKind.state]) rfl

/-- Its number is behind the next one. -/
theorem ne_nextId (h : s.Retired id) : id ≠ ⟨s.store.nextId⟩ := by
  rintro rfl
  exact Nat.lt_irrefl _ h.created

/-- It can be marked as exited once more. -/
theorem setState_exited (h : s.Retired id) (target : TaskId) :
    s.Unmoved id { s with store := s.store.setState target .exited } := by
  refine ⟨?_, fun hcurrent => hcurrent, Nat.le_refl _⟩
  dsimp only
  rw [stateOf?_setState]
  split
  · rcases h.ended with hover | hover <;> rw [hover] <;> rfl
  · rfl

/-! ## Requests that leave a retired task alone -/

/-- When the processor changes hands, a retired task that had it keeps its state. -/
theorem handedOver (h : s.Retired id) (hsettled : s.Settled) {leave : Task → Task} {next : TaskId}
    (hleave : ∀ task, task.state = .exited → (leave task).state = .exited)
    (handed : HandedOver s leave next s') : s.Unmoved id s' := by
  obtain ⟨new, hnew, hqueue, -⟩ := handed.incoming
  have hready : new.state = .ready := hsettled.filed.state_of_queue hnew hqueue
  have hne : id ≠ next := h.ne_of_get? hnew (by rw [hready]; simp)
  refine ⟨?_, fun hseat => ?_, handed.nextId ▸ Nat.le_refl _⟩
  -- It had the processor or it had not; only in the first case is it filed.
  · by_cases hcurrent : s.current = some id
    · obtain ⟨old, hold, -, -⟩ := hsettled.get?_current hcurrent
      have hexited : old.state = .exited := by
        by_contra hbusy
        exact h.ne_of_get? hold hbusy rfl
      rw [stateOf?_of_get? hold, stateOf?_of_get? (handed.outgoing id old hcurrent hold), hexited,
        Task.filed, hleave old hexited]
      rfl
    · exact stateOf?_congr (handed.others id hne hcurrent)
  · rw [handed.current] at hseat
    exact absurd (Option.some.inj hseat).symm hne

section

variable {P : Type} [Platform P]

theorem schedule (h : s.Retired id) (hsettled : s.Settled) (hw : P) :
    s.Unmoved id (s.schedule hw).2.1 := by
  rcases schedule_handedOver hsettled.seated hw with
    ⟨-, hw', heq⟩ | ⟨next, rest, outcome, s', hw', -, heq, -, handed⟩
  · rw [heq]
    exact .refl s id
  · rw [heq]
    exact h.handedOver hsettled (fun _ hexited => hexited) handed

theorem terminate (h : s.Retired id) (hsettled : s.Settled) (target : TaskId) (hw : P) :
    s.Unmoved id (s.terminate target hw).2.1 := by
  have hmarked := h.setState_exited target
  rw [Scheduler.terminate]
  split
  · exact .refl s id
  · dsimp only
    split
    · next hcurrent =>
        exact hmarked.trans ((h.unmoved hmarked).schedule
          (hsettled.setState hcurrent .exited (by simp)) hw)
    · exact hmarked.trans ⟨stateOf?_enqueue _ _ _ _, fun hseat => hseat, (nextId_enqueue _ _ _).ge⟩

theorem exit (h : s.Retired id) (hsettled : s.Settled) (hw : P) :
    s.Unmoved id (s.exit hw).2.1 := by
  rw [Scheduler.exit]
  split
  · exact .refl s id
  · next target _ => exact h.terminate hsettled target hw

/-- A request to block leaves those alone who do not run. -/
theorem blockCurrent (h : s.Retired id) (hsettled : s.Settled) (hother : s.current ≠ some id)
    (hw : P) : s.Unmoved id (s.blockCurrent hw).2.1 := by
  rw [Scheduler.blockCurrent]
  split
  · exact .refl s id
  · next running hcurrent =>
      have hne : id ≠ running := fun heq => hother (heq ▸ hcurrent)
      have hmarked : s.Unmoved id { s with store := s.store.setState running .blocked } :=
        ⟨(stateOf?_setState _ _ _ _).trans (if_neg hne), fun hseat => hseat, Nat.le_refl _⟩
      exact hmarked.trans ((h.unmoved hmarked).schedule
        (hsettled.setState hcurrent .blocked (by simp)) hw)

theorem wake (h : s.Retired id) (target : TaskId) : s.Unmoved id (s.wake target).2 := by
  rw [Scheduler.wake]
  split
  · exact .refl s id
  · next task hget =>
      split
      · exact .refl s id
      · next hblocked =>
          have hne : id ≠ target :=
            h.ne_of_get? hget fun hexited => hblocked (by rw [hexited]; simp)
          have hstate (state : TaskState) :
              (s.store.setState target state).stateOf? id = s.store.stateOf? id :=
            (stateOf?_setState _ _ _ _).trans (if_neg hne)
          split
          · exact ⟨hstate .running, fun hseat => hseat, Nat.le_refl _⟩
          · exact ⟨(stateOf?_enqueue _ _ _ _).trans (hstate .ready), fun hseat => hseat,
              (nextId_enqueue (s.store.setState target .ready) .ready target).ge⟩

theorem adopt (h : s.Retired id) (hsettled : s.Settled) (target : TaskId) (mode : Outgoing) :
    s.Unmoved id (s.adopt target mode).2 := by
  by_cases hmem : target ∈ (s.store.queue .ready).ids
  · obtain ⟨s', heq, handed⟩ := adopt_handedOver hsettled.seated hmem mode
    rw [heq]
    exact h.handedOver hsettled mode.leave_exited handed
  · rw [Scheduler.adopt, remove_of_not_mem hmem]
    exact .refl s id

theorem tick (s : Scheduler) (id : TaskId) : s.Unmoved id s.tick.2 := by
  rw [Scheduler.tick]
  split
  · exact .refl s id
  · exact ⟨stateOf?_modify _ _ _ (fun _ => rfl) fun _ => rfl, fun hseat => hseat, Nat.le_refl _⟩

end

section

variable {F P S : Type} [FrameSource F] [Platform P] [ImageSource S]

theorem enlist (h : s.Retired id) (hsettled : s.Settled) {task : Task}
    (hid : task.id = ⟨s.store.nextId⟩) : s.Unmoved id (s.enlist task) := by
  refine ⟨stateOf?_congr ?_, fun hseat => hseat, ?_⟩
  · rw [get?_enlist hsettled.filed.linked hid, if_neg h.ne_nextId]
  · rw [Scheduler.enlist, nextId_enqueue]
    exact Nat.le_succ _

theorem create (h : s.Retired id) (hsettled : s.Settled) (mem : Memory F) (entry : VirtAddr)
    (imageSize : Nat) : s.Unmoved id (s.createTask mem entry imageSize).2.1 := by
  rcases create_cases s.store mem entry imageSize with
    ⟨e, mem', hcreate⟩ | ⟨task, mem', hid, -, -, hcreate⟩
  · simp only [createTask, hcreate]
    exact .refl s id
  · simp only [createTask, hcreate]
    exact h.enlist hsettled hid

theorem prepare (h : s.Retired id) (hsettled : s.Settled) (mem : Memory F) (hw : P) (images : S)
    (name : String) (mode : LaunchMode) : s.Unmoved id (s.prepare mem hw images name mode).2.1 := by
  have hend := prepare_end hsettled.seated mem hw images name mode
  generalize s.prepare mem hw images name mode = result at hend ⊢
  cases hend with
  | notFound size | noRoom size allocate | notBuilt size allocate build => exact .refl s id
  | started size allocate build rearranged handed =>
      obtain ⟨hid, hstate, hqueue⟩ := Task.fresh_of_build build
      have henlisted := h.enlist hsettled hid
      have enlisted : (s.enlist _).Settled := enroll_settled hsettled hid hstate hqueue
      exact henlisted.trans
        ((h.unmoved henlisted).handedOver enlisted mode.outgoing.leave_exited handed)

theorem init (h : s.Retired id) (hsettled : s.Settled) (mem : Memory F) (entry : VirtAddr) :
    s.Unmoved id (s.init mem entry).2.1 := by
  have hcreated := h.create hsettled mem entry pageSize
  rcases create_cases s.store mem entry pageSize with
    ⟨e, mem', hcreate⟩ | ⟨task, mem', hid, -, -, hcreate⟩
  · simp only [Scheduler.init, hcreate]
    exact .refl s id
  · simp only [createTask, hcreate] at hcreated
    simp only [Scheduler.init, hcreate]
    refine ⟨?_, fun hseat => absurd (Option.some.inj hseat).symm h.ne_nextId, ?_⟩
    · rw [stateOf?_setState, if_neg h.ne_nextId, stateOf?_remove]
      exact hcreated.state
    · refine hcreated.nextId.trans (Nat.le_of_eq ?_)
      rw [remove]
      split <;> rfl

end

/-- Nobody wakes it. -/
theorem wake_self (h : s.Retired id) : s.wake id = (.error (.notFound id), s) := by
  cases hget : s.store.get? id with
  | none => simp only [Scheduler.wake, hget]
  | some task =>
      have hstate : task.state ≠ .blocked := fun hblocked =>
        h.ne_of_get? hget (by rw [hblocked]; simp) rfl
      simp only [Scheduler.wake, hget, ne_eq, hstate, not_false_eq_true, if_true]

/-- Nobody adopts it. -/
theorem adopt_self (h : s.Retired id) (hsettled : s.Settled) (mode : Outgoing) :
    s.adopt id mode = (.error (.notFound id), s) := by
  rw [Scheduler.adopt, remove_of_not_mem (h.not_mem_ready hsettled)]

end Retired

/-! ## Every request -/

section

variable {F P S : Type} [FrameSource F] [Platform P] [ImageSource S] {s : Scheduler} {id : TaskId}

/-- Reaping drops tasks and changes no state. -/
theorem Buried.stateOf? {store store' : TaskStore} {mem mem' : Memory F} {ids : List TaskId}
    (buried : Buried store mem ids store' mem') (id : TaskId) :
    store'.stateOf? id = if id ∈ ids then none else store.stateOf? id := by
  induction buried with
  | nil => rw [if_neg List.not_mem_nil]
  | @cons store _ _ _ zombieId _ _ zombie get rest ih =>
      rw [ih, TaskStore.stateOf?, get?_bury get]
      by_cases heq : id = zombieId
      · rw [if_pos heq, Option.map_none, ite_self, heq, if_pos List.mem_cons_self]
      · rw [if_neg heq]
        simp only [List.mem_cons, heq, false_or, TaskStore.stateOf?]

end

end Scheduler

/-- The tasks that a request has dropped. -/
def Answer.reapedIds : Answer → List TaskId
  | reaped ids => ids
  | _ => []

namespace Scheduler

section

variable {F P S : Type} [FrameSource F] [Platform P] [ImageSource S] {s : Scheduler} {id : TaskId}

/-- What a request leaves of a retired task: it is retired, and gone only by reaping; it has
    not got the processor. -/
structure LeftRetired (s : Scheduler) (id : TaskId) (answer : Answer) (s' : Scheduler) :
    Prop where
  retired : s'.Retired id
  state : s'.store.stateOf? id =
    if id ∈ answer.reapedIds then none else s.store.stateOf? id
  seat : s'.current = some id → s.current = some id
  passed : answer.dispatched? ≠ some id

theorem Settled.not_dispatched (h : s.Settled) (hretired : s.Retired id) (mem : Memory F) (hw : P)
    (request : Request S) : (s.answer mem hw request).1.dispatched? ≠ some id := by
  intro hdispatched
  have hadvanced := h.answered_advanced mem hw request
  rw [hdispatched] at hadvanced
  cases hadvanced with
  | dispatch head current ready fresh =>
      exact hretired.not_mem_ready h (head ▸ List.mem_cons_self)

/-- No request but one brings a retired task back. -/
theorem Retired.answered (h : s.Retired id) (hsettled : s.Settled) (mem : Memory F) (hw : P)
    (request : Request S) (hspared : request = .blockCurrent → s.current ≠ some id) :
    LeftRetired s id (s.answer mem hw request).1 (s.answer mem hw request).2.1 := by
  have hpassed := hsettled.not_dispatched h mem hw request
  have hof (hmoved : s.Unmoved id (s.answer mem hw request).2.1)
      (hnone : (s.answer mem hw request).1.reapedIds = []) :
      LeftRetired s id (s.answer mem hw request).1 (s.answer mem hw request).2.1 := by
    refine ⟨h.unmoved hmoved, ?_, hmoved.seat, hpassed⟩
    rw [hnone, if_neg List.not_mem_nil]
    exact hmoved.state
  cases request with
  | init entry => exact hof (h.init hsettled mem entry) rfl
  | create entry imageSize => exact hof (h.create hsettled mem entry imageSize) rfl
  | prepare images name mode => exact hof (h.prepare hsettled mem hw images name mode) rfl
  | schedule => exact hof (h.schedule hsettled hw) rfl
  | tick => exact hof (Retired.tick s id) rfl
  | terminate target => exact hof (h.terminate hsettled target hw) rfl
  | exit => exact hof (h.exit hsettled hw) rfl
  | blockCurrent => exact hof (h.blockCurrent hsettled (hspared rfl) hw) rfl
  | wake target => exact hof (h.wake target) rfl
  | adopt target mode => exact hof (h.adopt hsettled target mode) rfl
  | reap =>
      have buried := reapZombies_buried s.store.zombie.length hsettled.filed.linked mem
      have hstate := buried.stateOf? id
      obtain ⟨-, hnextId⟩ := reap_settled hsettled mem
      refine ⟨⟨hnextId ▸ h.created, ?_⟩, hstate, fun hseat => hseat, hpassed⟩
      rw [show (s.answer mem hw (.reap : Request S)).2.1.store.stateOf? id = _ from hstate]
      split
      · exact Or.inl rfl
      · exact h.ended

end

end Scheduler

/-! ## Retiring -/

/-- The task that a request retires, if it succeeds. -/
def Request.retires? {S : Type} (s : Scheduler) : Request S → Option TaskId
  | terminate id => some id
  | exit => s.current
  | adopt _ .retire => s.current
  | prepare _ _ .replace => s.current
  | _ => none

/-- The answer reports no error. -/
def Answer.succeeded : Answer → Bool
  | created result => result.isOk
  | launched result => result.isOk
  | decided result => result.isOk
  | terminated result => result.isOk
  | changed result => result.isOk
  | ticked _ => true
  | reaped _ => true

namespace Scheduler

open TaskStore

section

variable {F P S : Type} [FrameSource F] [Platform P] [ImageSource S] {s s' : Scheduler}
  {id : TaskId}

theorem Settled.retired_of_exited (h : s.Settled) (hexited : s.store.stateOf? id = some .exited) :
    s.Retired id := by
  obtain ⟨task, hget, -⟩ := Option.map_eq_some_iff.1 hexited
  exact ⟨h.filed.linked.below id (mem_liveIds.2 ⟨task, mem_of_get? hget, id_of_get? hget⟩),
    Or.inr hexited⟩

theorem exited_of_terminate (h : s.Settled) (hw : P)
    (hok : (s.terminate id hw).1.isOk = true) :
    (s.terminate id hw).2.1.store.stateOf? id = some .exited := by
  cases hfound : s.lookup? id with
  | none =>
      simp only [terminate, hfound] at hok
      cases hok
  | some task =>
      have hmarked : (s.store.setState id .exited).stateOf? id = some .exited := by
        rw [stateOf?_setState, if_pos rfl, stateOf?_of_get? (get?_of_lookup? hfound),
          Option.map_some]
      by_cases hcurrent : s.current = some id
      -- The running task is marked first, so the switch meets it as a retired one.
      · have hsettled := h.setState hcurrent .exited (by simp)
        simp only [terminate, hfound, if_pos hcurrent]
        exact ((hsettled.retired_of_exited hmarked).schedule hsettled hw).state.trans hmarked
      · simp only [terminate, hfound, if_neg hcurrent, stateOf?_enqueue]
        exact hmarked

theorem HandedOver.exited {next : TaskId} (handed : HandedOver s Outgoing.retire.leave next s')
    (h : s.Seated) (hcurrent : s.current = some id) : s'.store.stateOf? id = some .exited := by
  obtain ⟨task, hget, -⟩ := h.current id hcurrent
  exact stateOf?_of_get? (handed.outgoing id task hcurrent hget)

theorem exited_of_adopt (h : s.Settled) {target : TaskId} (hcurrent : s.current = some id)
    (hok : (s.adopt target .retire).1.isOk = true) :
    (s.adopt target .retire).2.store.stateOf? id = some .exited := by
  by_cases hmem : target ∈ (s.store.queue .ready).ids
  · obtain ⟨s', heq, handed⟩ := adopt_handedOver h.seated hmem .retire
    rw [heq]
    exact handed.exited h.seated hcurrent
  · rw [adopt, remove_of_not_mem hmem] at hok
    cases hok

theorem exited_of_prepare (h : s.Settled) (hcurrent : s.current = some id) (mem : Memory F) (hw : P)
    (images : S) (name : String) (hok : (s.prepare mem hw images name .replace).1.isOk = true) :
    (s.prepare mem hw images name .replace).2.1.store.stateOf? id = some .exited := by
  have hend := prepare_end h.seated mem hw images name .replace
  generalize s.prepare mem hw images name .replace = result at hend hok ⊢
  cases hend with
  | notFound size | noRoom size allocate | notBuilt size allocate build => cases hok
  | started size allocate build rearranged handed =>
      obtain ⟨hid, -, hqueue⟩ := Task.fresh_of_build build
      exact handed.exited (h.seated.enroll hid hqueue).1 hcurrent

theorem exited_of_answer (h : s.Settled) (mem : Memory F) (hw : P) {request : Request S}
    (hretires : request.retires? s = some id)
    (hok : (s.answer mem hw request).1.succeeded = true) :
    (s.answer mem hw request).2.1.store.stateOf? id = some .exited := by
  cases request with
  | terminate target =>
      obtain rfl := Option.some.inj hretires
      exact exited_of_terminate h hw hok
  | exit =>
      have hcurrent : s.current = some id := hretires
      simp only [answer, exit, hcurrent, Answer.succeeded] at hok ⊢
      refine exited_of_terminate h hw ?_
      cases hresult : (s.terminate id hw).1 with
      | error e =>
          rw [hresult] at hok
          cases hok
      | ok termination => rfl
  | adopt target mode =>
      cases mode with
      | keep => cases hretires
      | retire => exact exited_of_adopt h hretires hok
  | prepare images name mode =>
      cases mode with
      | spawn => cases hretires
      | replace => exact exited_of_prepare h hretires mem hw images name hok
  | init | create | schedule | tick | blockCurrent | wake | reap => cases hretires

/-! ## The way back -/

/-- A request to block the running task blocks it, whatever its state. -/
theorem blocked_of_blockCurrent (h : s.Settled) (hcurrent : s.current = some id) (hw : P) :
    (s.blockCurrent hw).2.1.store.stateOf? id = some .blocked := by
  obtain ⟨task, hget, -⟩ := h.get?_current hcurrent
  have hget' := get?_setState_self hget .blocked
  have hsettled := h.setState hcurrent .blocked (by simp)
  have hblock : s.blockCurrent hw =
      schedule { s with store := s.store.setState id .blocked } hw := by
    simp only [blockCurrent, hcurrent]
  rw [hblock]
  rcases schedule_handedOver hsettled.seated hw with
    ⟨-, hw', heq⟩ | ⟨next, rest, outcome, s', hw', -, heq, -, handed⟩
  · rw [heq]
    exact stateOf?_of_get? hget'
  · rw [heq]
    exact stateOf?_of_get? (handed.outgoing id _ hcurrent hget')

theorem wake_of_blocked (hblocked : s.store.stateOf? id = some .blocked) :
    (s.wake id).1 = .ok () ∧ (s.wake id).2.store.stateOf? id =
      some (if s.current = some id then .running else .ready) := by
  obtain ⟨task, hget, hstate⟩ := Option.map_eq_some_iff.1 hblocked
  have hmarked (state : TaskState) : (s.store.setState id state).stateOf? id = some state := by
    rw [stateOf?_setState, if_pos rfl, hblocked, Option.map_some]
  by_cases hcurrent : s.current = some id
  · simp only [wake, hget, hstate, if_pos hcurrent, ne_eq, not_true_eq_false, if_false]
    exact ⟨trivial, hmarked .running⟩
  · simp only [wake, hget, hstate, if_neg hcurrent, ne_eq, not_true_eq_false, if_false,
      stateOf?_enqueue]
    exact ⟨trivial, hmarked .ready⟩

end

end Scheduler

/-! ## Courses -/

section

variable {S : Type} {s s' : Scheduler} {turns : List (Turn S)} {id : TaskId}

/-- The task is still retired after these turns: nobody has dispatched it and nobody can wake or
    adopt it, and it is gone only if somebody reaped. -/
structure RestsThrough (id : TaskId) (s : Scheduler) (turns : List (Turn S)) (s' : Scheduler) :
    Prop where
  retired : s'.Retired id
  kept : (∀ turn ∈ turns, id ∉ turn.answer.reapedIds) →
    s'.store.stateOf? id = s.store.stateOf? id
  gone : (∃ turn ∈ turns, id ∈ turn.answer.reapedIds) → s'.store.stateOf? id = none
  seat : s'.current = some id → s.current = some id
  passed : id ∉ dispatches turns
  asleep : s'.wake id = (.error (.notFound id), s')
  refused : ∀ mode, s'.adopt id mode = (.error (.notFound id), s')

theorem restsThrough_nil (h : s.Settled) (hretired : s.Retired id) :
    RestsThrough id s ([] : List (Turn S)) s :=
  ⟨hretired, fun _ => rfl, fun ⟨_, hmem, _⟩ => absurd hmem List.not_mem_nil, fun hseat => hseat,
    List.not_mem_nil, hretired.wake_self, hretired.adopt_self h⟩

theorem RestsThrough.step (h : RestsThrough id s turns s') {request : Request S} {answer : Answer}
    {current : Option TaskId} {s'' : Scheduler} (hsettled : s''.Settled)
    (hleft : s'.LeftRetired id answer s'') :
    RestsThrough id s (turns ++ [⟨request, answer, current⟩]) s'' where
  retired := hleft.retired
  kept hspared := by
    rw [hleft.state, if_neg (hspared _ (List.mem_append_right _ List.mem_cons_self))]
    exact h.kept fun turn hturn => hspared turn (List.mem_append_left _ hturn)
  gone := by
    rintro ⟨turn, hturn, hmem⟩
    rw [hleft.state]
    split
    · rfl
    · next hnot =>
        rcases List.mem_append.1 hturn with hearlier | hlast
        · exact h.gone ⟨turn, hearlier, hmem⟩
        · rw [List.mem_singleton.1 hlast] at hmem
          exact absurd hmem hnot
  seat := h.seat ∘ hleft.seat
  passed := by
    rw [dispatches_append, dispatches_singleton, List.mem_append, not_or]
    exact ⟨h.passed, fun hmem => hleft.passed (Option.mem_toList.1 hmem)⟩
  asleep := hleft.retired.wake_self
  refused := hleft.retired.adopt_self hsettled

end

section

variable {F P S : Type} [FrameSource F] [Platform P] [ImageSource S] {s s' : Scheduler}
  {turns : List (Turn S)} {id : TaskId}

/-- Somewhere in these turns the task was blocked, which had retired but still ran. -/
def BlockedLate (F P : Type) [FrameSource F] [Platform P] (id : TaskId) (s : Scheduler)
    (turns : List (Turn S)) : Prop :=
  ∃ earlier turn later s₁, turns = earlier ++ turn :: later ∧ Course F P s earlier s₁ ∧
    RestsThrough id s earlier s₁ ∧ s₁.current = some id ∧ turn.request = .blockCurrent

theorem Course.restsThrough (h : s.Settled) (hretired : s.Retired id)
    (course : Course F P s turns s') :
    RestsThrough id s turns s' ∨ BlockedLate F P id s turns := by
  -- On the turns; the first that blocks the task ends its rest, and every other one keeps it.
  induction course with
  | nil => exact Or.inl (restsThrough_nil h hretired)
  | @step turns s' course request mem hw admitted ih =>
      rcases ih with hrests | ⟨earlier, turn, later, s₁, rfl, hearlier, hrests, hcurrent, hblocked⟩
      · by_cases hspared : request = .blockCurrent ∧ s'.current = some id
        · exact Or.inr ⟨turns, _, [], s', rfl, course, hrests, hspared.2, hspared.1⟩
        · have hsettled := course.settled h
          refine Or.inl (hrests.step (hsettled.answered mem hw request admitted).settled ?_)
          exact hrests.retired.answered hsettled mem hw request
            fun hblock hcurrent => hspared ⟨hblock, hcurrent⟩
      · refine Or.inr ⟨earlier, turn, later ++ [⟨request, (s'.answer mem hw request).1,
          (s'.answer mem hw request).2.1.current⟩], s₁, ?_, hearlier, hrests, hcurrent, hblocked⟩
        rw [List.append_assoc, List.cons_append]

/-! ## Termination -/

/-- In every scheduler that a run leads to, terminating a task, exiting, adopting in its place
    and launching in its place leave it exited. From then on it rests, whatever is asked: its
    state stays until it is reaped, and nothing dispatches, wakes or adopts it. The one request
    that ends its rest is to block the running task while that is still the one; it is blocked
    then, and can be woken. -/
theorem retired_tasks_rest {log : List Answer} (run : Run F P S log s) :
    (∀ (mem : Memory F) (hw : P) (request : Request S) id, request.retires? s = some id →
      (s.answer mem hw request).1.succeeded = true →
      (s.answer mem hw request).2.1.store.stateOf? id = some .exited ∧
        (s.answer mem hw request).2.1.Retired id) ∧
    (∀ id, s.Retired id → ∀ {turns : List (Turn S)} {s'}, Course F P s turns s' →
      RestsThrough id s turns s' ∨ BlockedLate F P id s turns) ∧
    ∀ id, s.current = some id → s.store.stateOf? id = some .exited → ∀ hw : P,
      (s.blockCurrent hw).2.1.store.stateOf? id = some .blocked ∧
      ((s.blockCurrent hw).2.1.wake id).1 = .ok () ∧
      ((s.blockCurrent hw).2.1.wake id).2.store.stateOf? id =
        some (if (s.blockCurrent hw).2.1.current = some id then .running else .ready) := by
  have h := run.settled
  refine ⟨fun mem hw request id hretires hok => ?_, fun id hretired turns s' course =>
    course.restsThrough h hretired, fun id hcurrent _ hw => ?_⟩
  · have hexited := Scheduler.exited_of_answer h mem hw hretires hok
    have hadmitted : s.Admits request := by
      cases request <;> trivial
    exact ⟨hexited, (h.answered mem hw request hadmitted).settled.retired_of_exited hexited⟩
  · have hblocked := Scheduler.blocked_of_blockCurrent h hcurrent hw
    exact ⟨hblocked, Scheduler.wake_of_blocked hblocked⟩

end

/-- A task that was terminated on the ready queue, and its zombie reaped two turns later. -/
theorem retired_tasks_rest_reaped :
    ∃ log s, Run FramePool Recorder ImageTable log s ∧ s.Retired ⟨1⟩ ∧
      s.store.stateOf? ⟨1⟩ = some .exited ∧
      ∃ (turns : List (Turn ImageTable)) (s' : Scheduler), Course FramePool Recorder s turns s' ∧
        turns.map (·.answer.reapedIds) = [[], [⟨1⟩]] ∧ RestsThrough ⟨1⟩ s turns s' ∧
        s'.store.stateOf? ⟨1⟩ = none := by
  let mem : Memory FramePool := ⟨.zero, .ofPages 32⟩
  have run := (Run.nil.step (.init ⟨kernelBase⟩) mem Recorder.new rfl).step
    (.create ⟨kernelBase⟩ pageSize : Request ImageTable) mem Recorder.new trivial
  obtain ⟨hexited, hretired⟩ :=
    (retired_tasks_rest run).1 mem Recorder.new (.terminate ⟨1⟩) ⟨1⟩ rfl (by decide +kernel)
  have run' := run.step (.terminate ⟨1⟩) mem Recorder.new trivial
  have course (s : Scheduler) := ((Course.nil (s := s)).step (.schedule : Request ImageTable) mem
    Recorder.new trivial).step .reap mem Recorder.new trivial
  refine ⟨_, _, run', hretired, hexited, _, _, course _, by decide +kernel, ?_, by decide +kernel⟩
  rcases (retired_tasks_rest run').2.1 ⟨1⟩ hretired (course _) with
    hrests | ⟨earlier, turn, later, s₁, hturns, -, -, -, hblocked⟩
  · exact hrests
  · have hrequests : [.schedule, .reap] = (earlier ++ turn :: later).map Turn.request :=
      congrArg (List.map Turn.request) hturns
    rw [List.map_append, List.map_cons, hblocked] at hrequests
    have hmem : (.blockCurrent : Request ImageTable) ∈ [.schedule, .reap] := by
      rw [hrequests]
      exact List.mem_append_right _ List.mem_cons_self
    simp at hmem

/-- With nobody else ready, the task that exits is blocked and woken, and runs on. -/
theorem exited_task_runs_on :
    ∃ log s, Run FramePool Recorder ImageTable log s ∧ s.current = some ⟨0⟩ ∧
      ∃ (mem : Memory FramePool) (hw : Recorder),
        (s.answer mem hw (.exit : Request ImageTable)).1.succeeded = true ∧
        (s.answer mem hw (.exit : Request ImageTable)).2.1.store.stateOf? ⟨0⟩ = some .exited ∧
        ∃ (turns : List (Turn ImageTable)) (s' : Scheduler),
          Course FramePool Recorder (s.answer mem hw (.exit : Request ImageTable)).2.1 turns s' ∧
          turns.map (·.request) = [.blockCurrent, .wake ⟨0⟩] ∧
          turns.all (·.answer.succeeded) = true ∧ s'.current = some ⟨0⟩ ∧
          s'.store.stateOf? ⟨0⟩ = some .running := by
  let mem : Memory FramePool := ⟨.zero, .ofPages 32⟩
  have run := Run.nil.step (.init ⟨kernelBase⟩ : Request ImageTable) mem Recorder.new rfl
  have course (s : Scheduler) := ((Course.nil (s := s)).step
    (.blockCurrent : Request ImageTable) mem Recorder.new trivial).step
    (.wake ⟨0⟩) mem Recorder.new trivial
  exact ⟨_, _, run, by decide +kernel, mem, Recorder.new, by decide +kernel, by decide +kernel,
    _, _, course _, rfl, by decide +kernel, by decide +kernel, by decide +kernel⟩

end TaskKernel
