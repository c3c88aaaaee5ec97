/-
  TaskKernel.Proofs.Task.Roster

  A task store seen as three lists over the tasks that are live. A `Roster` keeps the tasks
  without a record of their queue and, for each kind of queue, one list of numbers; its operations
  strike a number off lists and write it at the end of one. The store keeps the membership twice,
  in its queues and in its tasks, and looks it up in the tasks while it takes numbers out of the
  queues; it answers every request as the roster does, because the two copies always agree.
-/
import TaskKernel.Proofs.Task.Links

namespace TaskKernel

/-- The task without a record of the queue that holds it. -/
def Task.unlisted (task : Task) : Task := { task with queue := none }

/-! ## Rosters -/

/-- Live tasks and three lists of their numbers. The lists alone tell where a task stands. -/
@[ext]
structure Roster where
  /-- The live tasks, oldest first, without a record of their queue. -/
  tasks : List Task
  /-- The numbers in the queue of each kind, head first. -/
  list : QueueKind → List TaskId
  nextId : Nat

namespace Roster

def empty : Roster := ⟨[], fun _ => [], 0⟩

/-- A list without a number. -/
def strike (id : TaskId) (ids : List TaskId) : List TaskId := ids.filter (· != id)

/-- The kind of the list that has a number. -/
def place? (r : Roster) (id : TaskId) : Option QueueKind :=
  [QueueKind.ready, .wait, .zombie].find? fun kind => id ∈ r.list kind

/-- The live task with this number, with a record of the list that has it. -/
def task? (r : Roster) (id : TaskId) : Option Task :=
  (r.tasks.find? (·.id == id)).map fun task => { task with queue := r.place? id }

/-- A task that was built takes the next number and goes to the end of the ready list. -/
def create (r : Roster) : Except TaskError Task → Except TaskError TaskId × Roster
  | .error e => (.error e, r)
  | .ok task =>
    (.ok ⟨r.nextId⟩, {
      tasks := r.tasks ++ [task]
      list := fun kind => r.list kind ++ if kind = .ready then [⟨r.nextId⟩] else []
      nextId := r.nextId + 1 })

/-- The number of a live task is struck off every list and written at the end of one. -/
def enqueue (r : Roster) (kind : QueueKind) (id : TaskId) : Bool × Roster :=
  match r.task? id with
  | none => (false, r)
  | some _ =>
    (true, { r with
      list := fun other => strike id (r.list other) ++ if other = kind then [id] else [] })

/-- One list loses its head. -/
def dequeue (r : Roster) (kind : QueueKind) : Option TaskId × Roster :=
  ((r.list kind).head?, { r with
    list := fun other => if other = kind then (r.list other).tail else r.list other })

/-- A number is struck off one list. -/
def remove (r : Roster) (kind : QueueKind) (id : TaskId) : Bool × Roster :=
  (decide (id ∈ r.list kind), { r with
    list := fun other => if other = kind then strike id (r.list other) else r.list other })

/-- A number is struck off every list, and its task is live no more. -/
def take (r : Roster) (id : TaskId) : Option Task × Roster :=
  (r.task? id, { r with
    tasks := r.tasks.filter (·.id != id)
    list := fun kind => strike id (r.list kind) })

theorem strike_eq_self {id : TaskId} {ids : List TaskId} (h : id ∉ ids) : strike id ids = ids := by
  apply List.filter_eq_self.2
  intro other hmem
  simpa using fun heq : other = id => h (heq ▸ hmem)

theorem strike_eq_erase {id : TaskId} {ids : List TaskId} (h : ids.Nodup) :
    strike id ids = ids.erase id := by
  rw [strike, h.erase_eq_filter]

/-- A list without the number that a request has touched, if it has touched one. -/
def others (touched : Option TaskId) (ids : List TaskId) : List TaskId :=
  ids.filter fun id => some id != touched

theorem others_some (id : TaskId) (ids : List TaskId) : others (some id) ids = strike id ids := rfl

theorem strike_strike (id : TaskId) (ids : List TaskId) :
    strike id (strike id ids) = strike id ids := by
  rw [strike, strike, List.filter_filter]
  simp only [Bool.and_self]

theorem strike_append_ite (id : TaskId) (ids : List TaskId) (p : Prop) [Decidable p] :
    strike id (ids ++ if p then [id] else []) = strike id ids := by
  rw [strike, List.filter_append]
  split <;> simp [strike]

end Roster

/-! ## Requests -/

/-- What can be asked of a task store. A creation brings the memory that it meets. -/
inductive StoreRequest (F : Type) where
  | create (mem : Memory F) (entry : VirtAddr) (imageSize : Nat)
  | enqueue (kind : QueueKind) (id : TaskId)
  | dequeue (kind : QueueKind)
  | remove (kind : QueueKind) (id : TaskId)
  | take (id : TaskId)

/-- What comes back from a request. -/
inductive StoreAnswer where
  | created (result : Except TaskError TaskId)
  | moved (done : Bool)
  | popped (head : Option TaskId)
  | taken (task : Option Task)

section

variable {F : Type} [FrameSource F]

def TaskStore.serve (s : TaskStore) : StoreRequest F → StoreAnswer × TaskStore
  | .create mem entry imageSize =>
    let (result, s, _) := s.create mem entry imageSize
    (.created result, s)
  | .enqueue kind id =>
    let (done, s) := s.enqueue kind id
    (.moved done, s)
  | .dequeue kind =>
    let (head, s) := s.dequeue kind
    (.popped head, s)
  | .remove kind id =>
    let (done, s) := s.remove kind id
    (.moved done, s)
  | .take id =>
    let (task, s) := s.take id
    (.taken task, s)

/-- Serves one request after the other. -/
def TaskStore.serveAll (s : TaskStore) : List (StoreRequest F) → List StoreAnswer × TaskStore
  | [] => ([], s)
  | request :: requests =>
    let (answer, s) := s.serve request
    let (answers, s) := s.serveAll requests
    (answer :: answers, s)

def Roster.serve (r : Roster) : StoreRequest F → StoreAnswer × Roster
  | .create mem entry imageSize =>
    let (result, r) := r.create (Task.build mem ⟨r.nextId⟩ entry imageSize).1
    (.created result, r)
  | .enqueue kind id =>
    let (done, r) := r.enqueue kind id
    (.moved done, r)
  | .dequeue kind =>
    let (head, r) := r.dequeue kind
    (.popped head, r)
  | .remove kind id =>
    let (done, r) := r.remove kind id
    (.moved done, r)
  | .take id =>
    let (task, r) := r.take id
    (.taken task, r)

/-- Serves one request after the other. -/
def Roster.serveAll (r : Roster) : List (StoreRequest F) → List StoreAnswer × Roster
  | [] => ([], r)
  | request :: requests =>
    let (answer, r) := r.serve request
    let (answers, r) := r.serveAll requests
    (answer :: answers, r)

end

/-! ## The roster of a store -/

namespace TaskStore

/-- What is left of a store when its tasks record no queue. -/
def roster (s : TaskStore) : Roster where
  tasks := s.tasks.map Task.unlisted
  list kind := (s.queue kind).ids
  nextId := s.nextId

theorem map_unlisted_setQueueOf (s : TaskStore) (id : TaskId) (queue : Option QueueKind) :
    (s.setQueueOf id queue).tasks.map Task.unlisted = s.tasks.map Task.unlisted := by
  rw [setQueueOf, modify, List.map_map]
  apply List.map_congr_left
  intro task _
  by_cases h : task.id = id
  · simp [h, Task.unlisted]
  · simp [h]

theorem map_unlisted_detach (s : TaskStore) (kind : QueueKind) (id : TaskId) :
    (s.detach kind id).tasks.map Task.unlisted = s.tasks.map Task.unlisted := by
  rw [detach, map_unlisted_setQueueOf, tasks_unlink]

theorem map_unlisted_enqueue (s : TaskStore) (kind : QueueKind) (id : TaskId) :
    (s.enqueue kind id).2.tasks.map Task.unlisted = s.tasks.map Task.unlisted := by
  rw [enqueue]
  cases s.get? id with
  | none => rfl
  | some task =>
    dsimp only
    rw [map_unlisted_setQueueOf]
    cases kind <;> exact congrArg (List.map Task.unlisted) (tasks_unlink s task.queue id)

namespace Linked

variable {s : TaskStore}

/-- The list that has a number is the queue that its task names. -/
theorem place?_roster (h : s.Linked) {id : TaskId} {task : Task} (hget : s.get? id = some task) :
    s.roster.place? id = task.queue := by
  have hmem (kind : QueueKind) : id ∈ s.roster.list kind ↔ task.queue = some kind :=
    h.mem_queue_iff hget kind
  simp only [Roster.place?, List.find?_cons, hmem]
  cases task.queue with
  | none => rfl
  | some kind => cases kind <;> rfl

theorem task?_roster (h : s.Linked) (id : TaskId) : s.roster.task? id = s.get? id := by
  have hfind : s.roster.tasks.find? (·.id == id) = (s.get? id).map Task.unlisted :=
    List.find?_map
  rw [Roster.task?, hfind]
  cases hget : s.get? id with
  | none => rfl
  | some task =>
    rw [Option.map_some, Option.map_some, h.place?_roster hget]
    rfl

theorem strike_queue (h : s.Linked) (id : TaskId) (kind : QueueKind) :
    Roster.strike id (s.roster.list kind) = (s.queue kind).ids.erase id :=
  Roster.strike_eq_erase (h.queue_nodup kind)

/-! ## One operation -/

theorem roster_create {F : Type} [FrameSource F] (h : s.Linked) (mem : Memory F) (entry : VirtAddr)
    (imageSize : Nat) :
    s.roster.create (Task.build mem ⟨s.nextId⟩ entry imageSize).1 =
      ((s.create mem entry imageSize).1, (s.create mem entry imageSize).2.1.roster) := by
  rcases hbuild : Task.build mem ⟨s.nextId⟩ entry imageSize with ⟨result, mem'⟩
  cases result with
  | error e =>
    rw [create_of_error hbuild]
    rfl
  | ok task =>
    obtain ⟨hid, -, hqueue⟩ := Task.fresh_of_build hbuild
    rw [create_of_ok hbuild]
    refine Prod.ext rfl (Roster.ext ?_ (funext fun kind => ?_) ?_)
    -- The fresh task has no record of a queue yet.
    · have hfresh : task.unlisted = task := by
        rw [Task.unlisted, ← hqueue]
      have htasks := map_unlisted_enqueue (s.enroll task) .ready ⟨s.nextId⟩
      rw [TaskStore.enroll, List.map_append, List.map_singleton, hfresh] at htasks
      exact htasks.symm
    · exact (h.ids_enlisted hid hqueue kind).symm
    · exact (nextId_enqueue (s.enroll task) .ready _).symm

theorem roster_enqueue (h : s.Linked) (kind : QueueKind) (id : TaskId) :
    s.roster.enqueue kind id = ((s.enqueue kind id).1, (s.enqueue kind id).2.roster) := by
  rw [Roster.enqueue, h.task?_roster]
  cases hget : s.get? id with
  | none => simp only [TaskStore.enqueue, hget]
  | some task =>
    refine Prod.ext ?_ (Roster.ext (map_unlisted_enqueue s kind id).symm (funext fun other => ?_)
      (nextId_enqueue s kind id).symm)
    · simp only [TaskStore.enqueue, hget]
    · show Roster.strike id _ ++ _ = ((s.enqueue kind id).2.queue other).ids
      rw [h.strike_queue, h.ids_enqueue hget]

theorem roster_dequeue (s : TaskStore) (kind : QueueKind) :
    s.roster.dequeue kind = ((s.dequeue kind).1, (s.dequeue kind).2.roster) := by
  cases hfront : (s.queue kind).front? with
  | none =>
    rw [dequeue_of_empty hfront]
    refine Prod.ext hfront (Roster.ext rfl (funext fun other => ?_) rfl)
    have hempty : (s.queue kind).ids = [] := List.head?_eq_none_iff.1 hfront
    show (if other = kind then (s.queue other).ids.tail else (s.queue other).ids) = _
    split
    · next heq =>
      rw [heq, hempty]
      exact hempty.symm
    · rfl
  | some id =>
    obtain ⟨rest, hrest⟩ : ∃ rest, (s.queue kind).ids = id :: rest :=
      List.head?_eq_some_iff.1 hfront
    rw [dequeue_of_front? hfront]
    refine Prod.ext hfront (Roster.ext (map_unlisted_detach s kind id).symm
      (funext fun other => ?_) (nextId_detach s kind id).symm)
    show (if other = kind then (s.queue other).ids.tail else (s.queue other).ids) =
      ((s.detach kind id).queue other).ids
    rw [ids_detach]
    split
    · next heq => rw [heq, hrest, List.tail_cons, List.erase_cons_head]
    · rfl

theorem roster_remove (h : s.Linked) (kind : QueueKind) (id : TaskId) :
    s.roster.remove kind id = ((s.remove kind id).1, (s.remove kind id).2.roster) := by
  by_cases hmem : id ∈ (s.queue kind).ids
  · rw [remove_of_mem hmem]
    refine Prod.ext (decide_eq_true hmem) (Roster.ext (map_unlisted_detach s kind id).symm
      (funext fun other => ?_) (nextId_detach s kind id).symm)
    show (if other = kind then Roster.strike id _ else _) = ((s.detach kind id).queue other).ids
    rw [ids_detach, h.strike_queue]
    rfl
  · rw [remove_of_not_mem hmem]
    refine Prod.ext (decide_eq_false hmem) (Roster.ext rfl (funext fun other => ?_) rfl)
    show (if other = kind then Roster.strike id (s.queue other).ids else (s.queue other).ids) = _
    split
    · next heq => exact Roster.strike_eq_self (heq ▸ hmem)
    · rfl

theorem roster_take (h : s.Linked) (id : TaskId) :
    s.roster.take id = ((s.take id).1, (s.take id).2.roster) := by
  -- Striking out tasks does not look at their queues.
  have hfilter (tasks : List Task) :
      (tasks.map Task.unlisted).filter (·.id != id) =
        (tasks.filter (·.id != id)).map Task.unlisted :=
    List.filter_map
  rw [Roster.take, h.task?_roster]
  cases hget : s.get? id with
  | none =>
    have hout : s.tasks.filter (·.id != id) = s.tasks := by
      apply List.filter_eq_self.2
      intro task hmem
      apply bne_iff_ne.2
      intro heq
      have hsome := get?_isSome_iff.2 ⟨task, hmem, heq⟩
      rw [hget] at hsome
      cases hsome
    simp only [TaskStore.take, hget]
    refine Prod.ext rfl (Roster.ext ?_ (funext fun kind => ?_) rfl)
    · show (s.tasks.map Task.unlisted).filter _ = s.tasks.map Task.unlisted
      rw [hfilter, hout]
    · exact Roster.strike_eq_self (h.notMem_of_get?_none hget kind)
  | some task =>
    rw [take_of_get? hget]
    refine Prod.ext rfl (Roster.ext ?_ (funext fun kind => ?_) (nextId_take s id).symm)
    · show (s.tasks.map Task.unlisted).filter _ = (s.take id).2.tasks.map Task.unlisted
      simp only [TaskStore.take, hget, tasks_unlink, hfilter]
    · show Roster.strike id _ = ((s.take id).2.queue kind).ids
      rw [h.strike_queue, h.ids_take hget]

/-! ## One request after the other -/

section

variable {F : Type} [FrameSource F]

theorem serve (h : s.Linked) (request : StoreRequest F) : (s.serve request).2.Linked := by
  cases request with
  | create mem entry imageSize =>
    rcases create_cases s mem entry imageSize with
      ⟨e, mem', hcreate⟩ | ⟨task, mem', hid, -, hqueue, hcreate⟩
    · simp only [TaskStore.serve, hcreate]
      exact h
    · simp only [TaskStore.serve, hcreate]
      exact (h.enroll hid hqueue).enqueue .ready (get?_enroll_self h hid)
  | enqueue kind id =>
    cases hget : s.get? id with
    | none =>
      simp only [TaskStore.serve, TaskStore.enqueue, hget]
      exact h
    | some task => exact h.enqueue kind hget
  | dequeue kind =>
    cases hfront : (s.queue kind).front? with
    | none =>
      simp only [TaskStore.serve, dequeue_of_empty hfront]
      exact h
    | some id =>
      simp only [TaskStore.serve, dequeue_of_front? hfront]
      exact h.detach (mem_of_front? hfront)
  | remove kind id =>
    by_cases hmem : id ∈ (s.queue kind).ids
    · simp only [TaskStore.serve, remove_of_mem hmem]
      exact h.detach hmem
    · simp only [TaskStore.serve, remove_of_not_mem hmem]
      exact h
  | take id =>
    cases hget : s.get? id with
    | none =>
      simp only [TaskStore.serve, TaskStore.take, hget]
      exact h
    | some task => exact h.take hget

/-- The roster answers as the store does, and remains its roster. -/
theorem roster_serve (h : s.Linked) (request : StoreRequest F) :
    s.roster.serve request = ((s.serve request).1, (s.serve request).2.roster) := by
  cases request with
  | create mem entry imageSize =>
    have hcreate := h.roster_create mem entry imageSize
    simp only [Roster.serve, TaskStore.serve, show s.roster.nextId = s.nextId from rfl, hcreate]
  | enqueue kind id => simp only [Roster.serve, TaskStore.serve, h.roster_enqueue]
  | dequeue kind => simp only [Roster.serve, TaskStore.serve, roster_dequeue]
  | remove kind id => simp only [Roster.serve, TaskStore.serve, h.roster_remove]
  | take id => simp only [Roster.serve, TaskStore.serve, h.roster_take]

theorem serveAll (h : s.Linked) (requests : List (StoreRequest F)) :
    (s.serveAll requests).2.Linked ∧
      s.roster.serveAll requests = ((s.serveAll requests).1, (s.serveAll requests).2.roster) := by
  -- On the requests, for every store: each of them leaves another one that is linked.
  induction requests generalizing s with
  | nil => exact ⟨h, rfl⟩
  | cons request requests ih =>
    obtain ⟨hlinked, hroster⟩ := ih (h.serve request)
    refine ⟨hlinked, ?_⟩
    simp only [Roster.serveAll, TaskStore.serveAll, h.roster_serve request, hroster]

end

/-! ## What the two copies of the membership say -/

/-- Nobody is on two queues. -/
theorem disjoint_queues (h : s.Linked) (kind kind' : QueueKind) (hne : kind ≠ kind') :
    (s.queue kind).ids.Disjoint (s.queue kind').ids := by
  intro id hmem hmem'
  obtain ⟨task, hget, hqueue⟩ := (h.mem_queue kind id).1 hmem
  have hqueue' := (h.mem_queue_iff hget kind').1 hmem'
  exact hne (Option.some.inj (hqueue.symm.trans hqueue'))

theorem nodup_queues (h : s.Linked) : (s.ready.ids ++ s.wait.ids ++ s.zombie.ids).Nodup := by
  have hready_wait : s.ready.ids.Disjoint s.wait.ids :=
    h.disjoint_queues .ready .wait (by decide)
  have hready_zombie : s.ready.ids.Disjoint s.zombie.ids :=
    h.disjoint_queues .ready .zombie (by decide)
  have hwait_zombie : s.wait.ids.Disjoint s.zombie.ids :=
    h.disjoint_queues .wait .zombie (by decide)
  refine ((h.queue_nodup .ready).append (h.queue_nodup .wait) hready_wait).append
    (h.queue_nodup .zombie) ?_
  exact List.disjoint_append_left.2 ⟨hready_zombie, hwait_zombie⟩

end Linked

/-- The queues and the tasks of a store agree on who is queued where. -/
structure Consistent (s : TaskStore) : Prop where
  /-- A number is on one queue at most, and there once. -/
  once : (s.ready.ids ++ s.wait.ids ++ s.zombie.ids).Nodup
  named : ∀ id task, s.get? id = some task →
    ∀ kind, task.queue = some kind ↔ id ∈ (s.queue kind).ids
  live : ∀ kind, ∀ id ∈ (s.queue kind).ids, (s.get? id).isSome = true
  found : ∀ id, (s.findQueued? id).isSome = true ↔ id ∈ s.ready.ids ∨ id ∈ s.wait.ids

theorem Linked.consistent {s : TaskStore} (h : s.Linked) : s.Consistent where
  once := h.nodup_queues
  named _ _ hget kind := (h.mem_queue_iff hget kind).symm
  live kind id hmem := by
    obtain ⟨task, hget, -⟩ := (h.mem_queue kind id).1 hmem
    rw [hget, Option.isSome_some]
  found := h.isSome_findQueued?_iff

end TaskStore

/-! ## Everyone else -/

/-- The number that a request is about. -/
def StoreRequest.named? {F : Type} : StoreRequest F → Option TaskId
  | create .. => none
  | enqueue _ id => some id
  | dequeue _ => none
  | remove _ id => some id
  | take id => some id

/-- The number that an answer brings up. -/
def StoreAnswer.id? : StoreAnswer → Option TaskId
  | created (.ok id) => some id
  | popped head => head
  | _ => none

section

variable {F : Type} [FrameSource F]

/-- But for the one number that the request names or the answer brings up, every list is as it
    was before. -/
theorem Roster.others_serve (r : Roster) (request : StoreRequest F) (kind : QueueKind) :
    others (request.named?.or (r.serve request).1.id?) ((r.serve request).2.list kind) =
      others (request.named?.or (r.serve request).1.id?) (r.list kind) := by
  cases request with
  | create mem entry imageSize =>
    simp only [serve, StoreRequest.named?, Option.none_or]
    cases (Task.build mem ⟨r.nextId⟩ entry imageSize).1 with
    | error e => rfl
    | ok task => exact strike_append_ite _ _ _
  | enqueue other id =>
    simp only [serve, enqueue, StoreRequest.named?, Option.some_or, others_some]
    cases r.task? id with
    | none => rfl
    | some task => exact (strike_append_ite _ _ _).trans (strike_strike _ _)
  | dequeue other =>
    simp only [serve, dequeue, StoreRequest.named?, Option.none_or, StoreAnswer.id?]
    split
    · next heq =>
      rw [heq]
      cases r.list other with
      | nil => rfl
      | cons id rest => simp [others]
    · rfl
  | remove other id =>
    simp only [serve, remove, StoreRequest.named?, Option.some_or, others_some]
    split
    · exact strike_strike _ _
    · rfl
  | take id => exact strike_strike id _

/-- A request about a number that is nobody's changes nothing. -/
theorem TaskStore.Linked.serve_unknown {s : TaskStore} (h : s.Linked) {request : StoreRequest F}
    {id : TaskId} (hnamed : request.named? = some id) (hget : s.get? id = none) :
    (s.serve request).2 = s := by
  cases request with
  | create | dequeue => cases hnamed
  | enqueue kind id' =>
    cases hnamed
    simp only [TaskStore.serve, TaskStore.enqueue, hget]
  | remove kind id' =>
    cases hnamed
    simp only [TaskStore.serve, TaskStore.remove_of_not_mem (h.notMem_of_get?_none hget kind)]
  | take id' =>
    cases hnamed
    simp only [TaskStore.serve, TaskStore.take, hget]

/-- From the empty store on, whatever requests come: the store answers as three lists over the
    live tasks do and holds what they hold. The lists and the tasks agree on who is queued where,
    and whatever is asked next moves one number at most and nothing at all about a number that is
    nobody's. -/
theorem store_keeps_three_lists (requests : List (StoreRequest F)) :
    let s := (TaskStore.empty.serveAll requests).2
    Roster.empty.serveAll requests = ((TaskStore.empty.serveAll requests).1, s.roster) ∧
      s.Consistent ∧
      ∀ request : StoreRequest F,
        (∀ kind,
          Roster.others (request.named?.or (s.serve request).1.id?)
              (((s.serve request).2).queue kind).ids =
            Roster.others (request.named?.or (s.serve request).1.id?) (s.queue kind).ids) ∧
        ∀ id, request.named? = some id → s.get? id = none → (s.serve request).2 = s := by
  intro s
  obtain ⟨hlinked, hroster⟩ := TaskStore.linked_empty.serveAll requests
  have hempty : TaskStore.empty.roster = Roster.empty :=
    Roster.ext rfl (funext fun kind => by cases kind <;> rfl) rfl
  rw [hempty] at hroster
  refine ⟨hroster, hlinked.consistent, fun request => ⟨fun kind => ?_, fun id hnamed hget => ?_⟩⟩
  · have hothers := s.roster.others_serve request kind
    rw [hlinked.roster_serve request] at hothers
    exact hothers
  · exact hlinked.serve_unknown hnamed hget

end

end TaskKernel
