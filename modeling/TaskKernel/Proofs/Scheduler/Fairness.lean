/-
  TaskKernel.Proofs.Scheduler.Fairness

  How long a ready task waits for its turn. A request never moves a waiting task back, a
  dispatch moves everyone one place up, and nobody overtakes; so a task that stands behind
  `p` others has the processor by the `p + 1`-th dispatch. Scheduling alone takes all
  tasks round in turn.
-/
import Mathlib.Data.List.Infix
import TaskKernel.Proofs.Scheduler.Placement
import TaskKernel.Proofs.Scheduler.ReadyQueue

namespace TaskKernel

/-! ## Places in a list that loses entries -/

section

variable {α : Type} [BEq α] [LawfulBEq α] {l l' : List α} {a b : α}

theorem idxOf_le_of_sublist (h : l'.Sublist l) (hnodup : l.Nodup) (ha : a ∈ l') :
    l'.idxOf a ≤ l.idxOf a := by
  induction h with
  | slnil => cases ha
  | cons x h ih =>
      obtain ⟨hout, hrest⟩ := List.nodup_cons.1 hnodup
      have hne : x ≠ a := fun heq => hout (heq ▸ h.subset ha)
      rw [List.idxOf_cons_ne _ hne]
      exact Nat.le_succ_of_le (ih hrest ha)
  | cons_cons x h ih =>
      obtain ⟨-, hrest⟩ := List.nodup_cons.1 hnodup
      by_cases heq : x = a
      · rw [List.idxOf_cons_eq _ heq, List.idxOf_cons_eq _ heq]
      · rw [List.idxOf_cons_ne _ heq, List.idxOf_cons_ne _ heq]
        exact Nat.succ_le_succ (ih hrest (List.mem_of_ne_of_mem (Ne.symm heq) ha))

/-- Those who remain stand in the same order as before. -/
theorem idxOf_lt_idxOf_of_sublist (h : l'.Sublist l) (hnodup : l.Nodup) (ha : a ∈ l')
    (hb : b ∈ l') : l'.idxOf a < l'.idxOf b ↔ l.idxOf a < l.idxOf b := by
  induction h with
  | slnil => cases ha
  | cons x h ih =>
      obtain ⟨hout, hrest⟩ := List.nodup_cons.1 hnodup
      have hne : x ≠ a := fun heq => hout (heq ▸ h.subset ha)
      have hne' : x ≠ b := fun heq => hout (heq ▸ h.subset hb)
      rw [List.idxOf_cons_ne _ hne, List.idxOf_cons_ne _ hne', Nat.succ_lt_succ_iff]
      exact ih hrest ha hb
  | cons_cons x h ih =>
      obtain ⟨-, hrest⟩ := List.nodup_cons.1 hnodup
      by_cases heqb : x = b
      · rw [List.idxOf_cons_eq _ heqb, List.idxOf_cons_eq _ heqb]
        simp
      · rw [List.idxOf_cons_ne _ heqb, List.idxOf_cons_ne _ heqb]
        by_cases heqa : x = a
        · rw [List.idxOf_cons_eq _ heqa, List.idxOf_cons_eq _ heqa]
          simp
        · rw [List.idxOf_cons_ne _ heqa, List.idxOf_cons_ne _ heqa, Nat.succ_lt_succ_iff,
            Nat.succ_lt_succ_iff]
          exact ih hrest (List.mem_of_ne_of_mem (Ne.symm heqa) ha)
            (List.mem_of_ne_of_mem (Ne.symm heqb) hb)

end

/-! ## One request -/

/-- What a request does to the tasks that wait for their turn. -/
structure InTurn (s : Scheduler) (named dispatched : Option TaskId) (s' : Scheduler) : Prop where
  /-- Who is dispatched runs. -/
  runs : ∀ next, dispatched = some next → s'.current = some next
  /-- Nobody moves back, and only the head is dispatched. -/
  stays : ∀ id ∈ s.store.ready.ids, named ≠ some id →
    (id ∈ s'.store.ready.ids ∧ s'.store.ready.ids.idxOf id ≤ s.store.ready.ids.idxOf id) ∨
    (s.store.ready.ids.idxOf id = 0 ∧ dispatched = some id)
  /-- A dispatch moves everyone one place up. -/
  closer : ∀ next, dispatched = some next → ∀ id ∈ s.store.ready.ids,
    (id ∈ s'.store.ready.ids ∧ s'.store.ready.ids.idxOf id + 1 = s.store.ready.ids.idxOf id) ∨
    id = next
  /-- Nobody overtakes. -/
  order : ∀ a ∈ s.store.ready.ids, ∀ b ∈ s.store.ready.ids,
    a ∈ s'.store.ready.ids → b ∈ s'.store.ready.ids →
    (s'.store.ready.ids.idxOf a < s'.store.ready.ids.idxOf b ↔
      s.store.ready.ids.idxOf a < s.store.ready.ids.idxOf b)

namespace Advanced

variable {queue : List TaskId} {named dispatched : Option TaskId} {s' : Scheduler}

theorem withoutNamed_sublist (queue : List TaskId) (named : Option TaskId) :
    (withoutNamed queue named).Sublist queue := by
  cases named with
  | none => exact List.Sublist.refl queue
  | some id => exact List.erase_sublist

/-- Whoever was on the queue and still is, is among those who kept their order. -/
theorem exists_kept (h : Advanced queue named dispatched s') :
    ∃ kept joined, s'.store.ready.ids = kept ++ joined ∧ kept.Sublist queue ∧
      ∀ id ∈ joined, id ∉ queue := by
  cases h with
  | dispatch head current ready fresh =>
      exact ⟨_, _, ready, head ▸ List.sublist_cons_self _ _, fresh⟩
  | remain ready fresh => exact ⟨_, _, ready, withoutNamed_sublist queue named, fresh⟩

theorem order (h : Advanced queue named dispatched s') (hnodup : queue.Nodup) {a b : TaskId}
    (ha : a ∈ queue) (hb : b ∈ queue) (ha' : a ∈ s'.store.ready.ids)
    (hb' : b ∈ s'.store.ready.ids) :
    s'.store.ready.ids.idxOf a < s'.store.ready.ids.idxOf b ↔ queue.idxOf a < queue.idxOf b := by
  obtain ⟨kept, joined, hready, hsub, hfresh⟩ := h.exists_kept
  have hkept : ∀ id ∈ queue, id ∈ s'.store.ready.ids → id ∈ kept := by
    intro id hold hnew
    rw [hready] at hnew
    exact (List.mem_append.1 hnew).resolve_right fun hin => hfresh id hin hold
  have hain := hkept a ha ha'
  have hbin := hkept b hb hb'
  rw [hready, List.idxOf_append_of_mem hain, List.idxOf_append_of_mem hbin]
  exact idxOf_lt_idxOf_of_sublist hsub hnodup hain hbin

/-- A dispatch takes the head and moves the others up. -/
theorem closer {next : TaskId} (h : Advanced queue named (some next) s') {id : TaskId}
    (hmem : id ∈ queue) :
    (id ∈ s'.store.ready.ids ∧ s'.store.ready.ids.idxOf id + 1 = queue.idxOf id) ∨
    (queue.idxOf id = 0 ∧ id = next) := by
  cases h with
  | dispatch head current ready fresh =>
      rw [head] at hmem ⊢
      by_cases heq : next = id
      · exact Or.inr ⟨List.idxOf_cons_eq _ heq, heq.symm⟩
      · have hrest := List.mem_of_ne_of_mem (Ne.symm heq) hmem
        rw [ready, List.idxOf_append_of_mem hrest, List.idxOf_cons_ne _ heq]
        exact Or.inl ⟨List.mem_append_left _ hrest, rfl⟩

theorem stays (h : Advanced queue named dispatched s') (hnodup : queue.Nodup) {id : TaskId}
    (hmem : id ∈ queue) (hnamed : named ≠ some id) :
    (id ∈ s'.store.ready.ids ∧ s'.store.ready.ids.idxOf id ≤ queue.idxOf id) ∨
    (queue.idxOf id = 0 ∧ dispatched = some id) := by
  cases hdispatched : dispatched with
  | some next =>
      rw [hdispatched] at h
      rcases h.closer hmem with ⟨hin, hidx⟩ | ⟨hzero, rfl⟩
      · exact Or.inl ⟨hin, hidx ▸ Nat.le_succ _⟩
      · exact Or.inr ⟨hzero, rfl⟩
  | none =>
      rw [hdispatched] at h
      cases h with
      | remain ready fresh =>
          have hkept : id ∈ withoutNamed queue named := by
            cases named with
            | none => exact hmem
            | some other =>
                exact (List.mem_erase_of_ne fun heq => hnamed (congrArg some heq.symm)).2 hmem
          rw [ready, List.idxOf_append_of_mem hkept]
          exact Or.inl ⟨List.mem_append_left _ hkept,
            idxOf_le_of_sublist (withoutNamed_sublist queue named) hnodup hkept⟩

theorem inTurn {s : Scheduler} (h : Advanced s.store.ready.ids named dispatched s')
    (hnodup : s.store.ready.ids.Nodup) : InTurn s named dispatched s' where
  runs next hnext := by
    rw [hnext] at h
    cases h with
    | dispatch head current ready fresh => exact current
  stays id hmem hnamed := h.stays hnodup hmem hnamed
  closer next hnext id hmem := by
    rw [hnext] at h
    exact (h.closer hmem).imp_right And.right
  order a ha b hb ha' hb' := h.order hnodup ha hb ha' hb'

end Advanced

section

variable {F P S : Type} [FrameSource F] [Platform P] [ImageSource S] {s : Scheduler}

theorem Scheduler.Settled.inTurn (h : s.Settled) (mem : Memory F) (hw : P) (request : Request S) :
    InTurn s request.named? (s.answer mem hw request).1.dispatched?
      (s.answer mem hw request).2.1 :=
  (h.answered_advanced mem hw request).inTurn (h.filed.linked.queue_nodup .ready)

end

/-! ## Courses -/

/-- A request in a course, its answer, and who runs then. -/
structure Turn (S : Type) where
  request : Request S
  answer : Answer
  current : Option TaskId

/-- The tasks that were dispatched, in order. -/
def dispatches {S : Type} (turns : List (Turn S)) : List TaskId :=
  turns.filterMap fun turn => turn.answer.dispatched?

section

variable (F P : Type) {S : Type} [FrameSource F] [Platform P] [ImageSource S]

/-- The requests and answers that lead from a scheduler on to another one. As in a run,
    every request meets a memory and a platform of its own. -/
inductive Course (s : Scheduler) : List (Turn S) → Scheduler → Prop
  | nil : Course s [] s
  | step {turns : List (Turn S)} {s' : Scheduler} (course : Course s turns s')
      (request : Request S) (mem : Memory F) (hw : P) (admitted : s'.Admits request) :
      Course s (turns ++ [⟨request, (s'.answer mem hw request).1,
        (s'.answer mem hw request).2.1.current⟩]) (s'.answer mem hw request).2.1

end

/-- How the wait of `id` behind `p` others stands: it has been one of the first `p + 1`
    dispatched, it was terminated or adopted before, or it still waits, closer by one place
    for each dispatch. -/
def Awaited {S : Type} (id : TaskId) (p : Nat) (turns : List (Turn S)) (s' : Scheduler) : Prop :=
  id ∈ (dispatches turns).take (p + 1) ∨
  (∃ earlier turn later, turns = earlier ++ turn :: later ∧
    (dispatches earlier).length ≤ p ∧ turn.request.named? = some id) ∨
  (id ∈ s'.store.ready.ids ∧ s'.store.ready.ids.idxOf id + (dispatches turns).length ≤ p)

theorem dispatches_append {S : Type} (turns turns' : List (Turn S)) :
    dispatches (turns ++ turns') = dispatches turns ++ dispatches turns' :=
  List.filterMap_append

theorem dispatches_singleton {S : Type} (turn : Turn S) :
    dispatches [turn] = turn.answer.dispatched?.toList := by
  cases hturn : turn.answer.dispatched? <;> simp [dispatches, hturn]

section

variable {S : Type} {id : TaskId} {p : Nat} {turns : List (Turn S)} {s s' : Scheduler}

/-- One more turn, which goes as `InTurn` says. -/
theorem Awaited.step (h : Awaited id p turns s) (turn : Turn S)
    (hturn : InTurn s turn.request.named? turn.answer.dispatched? s') :
    Awaited id p (turns ++ [turn]) s' := by
  rcases h with hdone | ⟨earlier, named, later, rfl, hlength, hnamed⟩ | ⟨hmem, hidx⟩
  · refine Or.inl ?_
    rw [dispatches_append]
    exact (List.IsPrefix.take (List.prefix_append _ _) (p + 1)).subset hdone
  · exact Or.inr (Or.inl ⟨earlier, named, later ++ [turn], by simp, hlength, hnamed⟩)
  · by_cases hnamed : turn.request.named? = some id
    · exact Or.inr (Or.inl ⟨turns, turn, [], rfl, by omega, hnamed⟩)
    rw [Awaited, dispatches_append, dispatches_singleton]
    cases hdispatched : turn.answer.dispatched? with
    | none =>
        rcases hturn.stays id hmem hnamed with ⟨hin, hle⟩ | ⟨-, hnext⟩
        · refine Or.inr (Or.inr ⟨hin, ?_⟩)
          simp only [Option.toList_none, List.append_nil]
          omega
        · rw [hdispatched] at hnext
          cases hnext
    | some next =>
        rcases hturn.closer next hdispatched id hmem with ⟨hin, hlt⟩ | rfl
        · refine Or.inr (Or.inr ⟨hin, ?_⟩)
          rw [List.length_append, Option.toList_some, List.length_singleton]
          omega
        -- The dispatch that takes the task is the one after those it waited for.
        · refine Or.inl ?_
          rw [List.take_of_length_le (by simp; omega)]
          exact List.mem_append_right _ List.mem_cons_self

end

section

variable {F P S : Type} [FrameSource F] [Platform P] [ImageSource S] {s s' : Scheduler}
  {turns : List (Turn S)}

theorem Course.settled (h : s.Settled) (course : Course F P s turns s') : s'.Settled := by
  induction course with
  | nil => exact h
  | step course request mem hw admitted ih => exact (ih.answered mem hw request admitted).settled

theorem Course.awaited (h : s.Settled) (course : Course F P s turns s') {id : TaskId}
    (hmem : id ∈ s.store.ready.ids) : Awaited id (s.store.ready.ids.idxOf id) turns s' := by
  induction course with
  | nil => exact Or.inr (Or.inr ⟨hmem, Nat.le_refl _⟩)
  | step course request mem hw admitted ih =>
      exact ih.step _ ((course.settled h).inTurn mem hw request)

/-! ## Going round -/

/-- Some way through a round: those in `taken` have had their turn, those in `left` have not,
    and the running task `id` is the last that had one. -/
structure Round (s : Scheduler) (taken left : List TaskId) (id : TaskId) : Prop where
  current : s.current = some id
  running : ∃ task, s.store.get? id = some task ∧ task.state = .running
  ring : s.store.ready.ids ++ [id] = left ++ taken

theorem Round.schedule {taken left : List TaskId} {id next : TaskId} (h : s.Settled)
    (round : Round s taken (next :: left) id) (hw : P) :
    Round (s.schedule hw).2.1 (taken ++ [next]) left next := by
  obtain ⟨task, hget, hstate⟩ := round.running
  have hring := round.ring
  rcases Scheduler.schedule_cases h hw with
    ⟨hready, hw', heq⟩ | ⟨next', outcome, s', hw', heq, -, dispatched⟩
  -- Alone, the running task is the one whose turn it is.
  · rw [hready] at hring
    obtain ⟨rfl, hnone⟩ := List.cons.inj hring
    obtain ⟨rfl, rfl⟩ := List.append_eq_nil_iff.1 hnone.symm
    rw [heq]
    exact ⟨round.current, round.running, by rw [hready]; rfl⟩
  · obtain ⟨rest, hready, hready'⟩ := dispatched.ready
    rw [Scheduler.returning_of_get? round.current hget, if_pos hstate] at hready'
    rw [hready] at hring
    rw [List.cons_append, List.cons_append] at hring
    obtain ⟨rfl, hrest⟩ := List.cons.inj hring
    rw [heq]
    refine ⟨dispatched.current, dispatched.running, ?_⟩
    rw [hready', hrest, List.append_assoc]

/-- Who has run after as many turns as there are, when everything asked is to schedule. -/
theorem Course.round (h : s.Settled) (course : Course F P s turns s')
    (hschedule : ∀ turn ∈ turns, turn.request = .schedule) {ring : List TaskId} {id : TaskId}
    (hround : Round s [] ring id) (hlength : turns.length ≤ ring.length) :
    ∃ taken left last, ring = taken ++ left ∧ turns.map (·.current) = taken.map some ∧
      Round s' taken left last := by
  induction course with
  | nil => exact ⟨[], ring, id, rfl, rfl, hround⟩
  | step course request mem hw admitted ih =>
      rw [List.length_append, List.length_singleton] at hlength
      obtain ⟨taken, left, last, hring, hseats, round⟩ :=
        ih (fun turn hmem => hschedule turn (List.mem_append_left _ hmem)) (by omega)
      cases hschedule _ (List.mem_append_right _ List.mem_cons_self)
      cases left with
      | nil =>
          -- The ring would be longer than the turns taken, but all have had theirs.
          have hcount := congrArg List.length hseats
          rw [List.length_map, List.length_map] at hcount
          rw [hring, List.append_nil] at hlength
          omega
      | cons next left =>
          have hnext := round.schedule (course.settled h) hw
          refine ⟨taken ++ [next], left, next, by rw [hring]; simp, ?_, hnext⟩
          rw [List.map_append, List.map_append, hseats, List.map_singleton, List.map_singleton]
          exact congrArg (fun seat => taken.map some ++ [seat]) hnext.current

theorem Course.full_round (h : s.Settled) (course : Course F P s turns s')
    (hschedule : ∀ turn ∈ turns, turn.request = .schedule) {id : TaskId} {task : Task}
    (hcurrent : s.current = some id) (hget : s.store.get? id = some task)
    (hstate : task.state = .running) (hlength : turns.length = s.store.ready.ids.length + 1) :
    turns.map (·.current) = (s.store.ready.ids ++ [id]).map some ∧
      s'.store.ready.ids = s.store.ready.ids ∧ s'.current = some id := by
  have hround : Round s [] (s.store.ready.ids ++ [id]) id :=
    ⟨hcurrent, ⟨task, hget, hstate⟩, (List.append_nil _).symm⟩
  obtain ⟨taken, left, last, hring, hseats, round⟩ :=
    course.round h hschedule hround (by rw [hlength, List.length_append]; rfl)
  have hcount := congrArg List.length hseats
  have hsum := congrArg List.length hring
  rw [List.length_map, List.length_map] at hcount
  rw [List.length_append, List.length_append, List.length_singleton] at hsum
  obtain rfl : left = [] := List.length_eq_zero_iff.1 (by omega)
  rw [List.append_nil] at hring
  obtain ⟨hready, hlast⟩ := List.append_inj' (round.ring.trans hring.symm) rfl
  refine ⟨by rw [hseats, hring], hready, ?_⟩
  rw [round.current, List.cons.inj hlast |>.1]

/-! ## Bounded bypass -/

/-- In every scheduler that a run leads to, each request treats those who wait as `InTurn`
    says. So a task that stands behind `p` others is among the next `p + 1` dispatched,
    unless it is terminated or adopted before; and where a running task and those who
    wait are only ever scheduled, each of them gets one turn in one round, after which the
    queue and the running task are as before. -/
theorem bounded_bypass {log : List Answer} (run : Run F P S log s) :
    (∀ (mem : Memory F) (hw : P) (request : Request S),
      InTurn s request.named? (s.answer mem hw request).1.dispatched?
        (s.answer mem hw request).2.1) ∧
    (∀ {turns : List (Turn S)} {s'}, Course F P s turns s' → ∀ id ∈ s.store.ready.ids,
      Awaited id (s.store.ready.ids.idxOf id) turns s') ∧
    ∀ {turns : List (Turn S)} {s' id task}, Course F P s turns s' →
      (∀ turn ∈ turns, turn.request = .schedule) →
      s.current = some id → s.store.get? id = some task → task.state = .running →
      turns.length = s.store.ready.ids.length + 1 →
      (s.store.ready.ids ++ [id]).Nodup ∧
      turns.map (·.current) = (s.store.ready.ids ++ [id]).map some ∧
      s'.store.ready.ids = s.store.ready.ids ∧ s'.current = some id := by
  have h := run.settled
  refine ⟨h.inTurn, fun course id hmem => course.awaited h hmem, ?_⟩
  intro turns s' id task course hschedule hcurrent hget hstate hlength
  refine ⟨?_, course.full_round h hschedule hcurrent hget hstate hlength⟩
  refine (h.filed.linked.queue_nodup .ready).append (List.nodup_singleton id) ?_
  exact List.disjoint_singleton.2 (h.not_mem_queue hcurrent .ready)

end

/-- Three tasks, scheduled three times. -/
theorem bounded_bypass_three :
    ∃ log s, Run FramePool Recorder ImageTable log s ∧ s.store.ready.ids = [⟨1⟩, ⟨2⟩] ∧
      ∃ turns : List (Turn ImageTable), ∃ s', Course FramePool Recorder s turns s' ∧
        Awaited ⟨2⟩ 1 turns s' ∧
        turns.map (·.current) = [some ⟨1⟩, some ⟨2⟩, some ⟨0⟩] ∧
        s'.store.ready.ids = [⟨1⟩, ⟨2⟩] ∧ s'.current = some ⟨0⟩ := by
  obtain ⟨log, s, run, hready, hcurrent, hstate⟩ :
      ∃ log s, Run FramePool Recorder ImageTable log s ∧ s.store.ready.ids = [⟨1⟩, ⟨2⟩] ∧
        s.current = some ⟨0⟩ ∧ (s.store.get? ⟨0⟩).map (·.state) = some .running := by
    let mem : Memory FramePool := ⟨.zero, .ofPages 32⟩
    have run := ((Run.nil.step (.init ⟨kernelBase⟩) mem Recorder.new rfl).step
      (.create ⟨kernelBase⟩ pageSize) mem Recorder.new trivial).step
      (.create ⟨kernelBase⟩ pageSize : Request ImageTable) mem Recorder.new trivial
    exact ⟨_, _, run, by decide +kernel, by decide +kernel, by decide +kernel⟩
  obtain ⟨task, hget, hrunning⟩ := Option.map_eq_some_iff.1 hstate
  have course := (((Course.nil (s := s)).step (.schedule : Request ImageTable)
    (⟨.zero, .ofPages 0⟩ : Memory FramePool) Recorder.new trivial).step .schedule
    ⟨.zero, .ofPages 0⟩ Recorder.new trivial).step .schedule ⟨.zero, .ofPages 0⟩ Recorder.new trivial
  obtain ⟨-, hawaited, hround⟩ := bounded_bypass run
  have hlast := hawaited course ⟨2⟩ (by rw [hready]; decide)
  obtain ⟨-, hseats, hready', hcurrent'⟩ :=
    hround course (by simp) hcurrent hget hrunning (by rw [hready]; rfl)
  rw [hready] at hlast hseats hready'
  exact ⟨log, s, run, hready, _, _, course, hlast, hseats, hready', hcurrent'⟩

end TaskKernel
