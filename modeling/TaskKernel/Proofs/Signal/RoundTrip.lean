/-
  TaskKernel.Proofs.Signal.RoundTrip

  From the entry into a signal handler to the return from it. There is one place to park
  an interrupted frame, and it serves for the whole life of a task: what is posted,
  registered and delivered while a handler runs leaves that place alone, so each return
  brings back the very frame that the entry before it interrupted.
-/
import TaskKernel.Signal.State

namespace TaskKernel

/-! ## Calls and runs -/

/-- What can be asked of the signals of a task. Delivery and return work on whatever frame
    the task has by then. -/
inductive SignalCall where
  | post (signum : Int)
  | register (signum : Int) (handler : Handler)
  | deliver (frame : TrapFrame)
  | sigreturn (frame : TrapFrame)
deriving DecidableEq, Repr

/-- A call with its answer; delivery and return show the frame before and after. -/
inductive SignalEvent where
  | posted (signum : Int) (result : Except SignalError Unit)
  | registered (signum : Int) (handler : Handler) (result : Except SignalError Handler)
  | delivered (before : TrapFrame) (decision : Delivery) (after : TrapFrame)
  | returned (before : TrapFrame) (resumed : Bool) (after : TrapFrame)

namespace SignalState

def serve (s : SignalState) : SignalCall → SignalEvent × SignalState
  | .post signum =>
    let (result, s) := s.post signum
    (.posted signum result, s)
  | .register signum handler =>
    let (result, s) := s.register signum handler
    (.registered signum handler result, s)
  | .deliver frame =>
    let (decision, s, after) := s.deliver frame
    (.delivered frame decision after, s)
  | .sigreturn frame =>
    let (resumed, s, after) := s.sigreturn frame
    (.returned frame resumed after, s)

end SignalState

/-- `SignalRun log s` says that some sequence of calls leads from the signals of a new task
    to `s`, with the events `log` in order. -/
inductive SignalRun : List SignalEvent → SignalState → Prop
  | nil : SignalRun [] .new
  | step {log : List SignalEvent} {s : SignalState} (run : SignalRun log s) (call : SignalCall) :
      SignalRun (log ++ [(s.serve call).1]) (s.serve call).2

/-! ## Entries and returns -/

/-- Where a handler begins and where it ends. -/
inductive HandlerMark where
  /-- A handler was entered from `frame`. -/
  | entered (frame : TrapFrame)
  /-- A handler ended, after which the task has `frame`. -/
  | left (frame : TrapFrame)
deriving DecidableEq, Repr

/-- The mark that an event sets, if a handler begins or ends with it. -/
def SignalEvent.mark? : SignalEvent → Option HandlerMark
  | delivered before (.handler _) _ => some (.entered before)
  | returned _ true after => some (.left after)
  | _ => none

namespace SignalEvent

theorem eq_delivered_of_mark? {event : SignalEvent} {frame : TrapFrame}
    (h : event.mark? = some (.entered frame)) :
    ∃ n after, event = .delivered frame (.handler n) after := by
  unfold mark? at h
  split at h
  · next before n after =>
      cases h
      exact ⟨n, after, rfl⟩
  · cases h
  · cases h

end SignalEvent

/-- An entry from `frame` and the return to it. -/
def roundTrip (frame : TrapFrame) : List HandlerMark := [.entered frame, .left frame]

/-- The last events of `log` are an entry into a handler from `frame` and what happened
    since, in which no handler began or ended. -/
def EnteredFrom (frame : TrapFrame) (log : List SignalEvent) : Prop :=
  ∃ earlier n after since, log = earlier ++ .delivered frame (.handler n) after :: since ∧
    ∀ event ∈ since, event.mark? = none

theorem EnteredFrom.snoc {frame : TrapFrame} {log : List SignalEvent} (h : EnteredFrom frame log)
    {event : SignalEvent} (hquiet : event.mark? = none) : EnteredFrom frame (log ++ [event]) := by
  obtain ⟨earlier, n, after, since, rfl, hsince⟩ := h
  refine ⟨earlier, n, after, since ++ [event], by simp, ?_⟩
  intro other hmem
  rcases List.mem_append.1 hmem with hold | hnew
  · exact hsince other hold
  · rw [List.mem_singleton.1 hnew]
    exact hquiet

namespace SignalState

/-! ## What each call does to the parked frame -/

@[simp] theorem interrupted_clear (s : SignalState) (n : SignalSlot) :
    (s.clear n).interrupted = s.interrupted := rfl

@[simp] theorem interrupted_post (s : SignalState) (signum : Int) :
    (s.post signum).2.interrupted = s.interrupted := by
  rw [post]
  split <;> rfl

@[simp] theorem interrupted_register (s : SignalState) (signum : Int) (handler : Handler) :
    (s.register signum handler).2.interrupted = s.interrupted := by
  rw [register]
  split
  · rfl
  · split <;> rfl

/-- Consuming pending signals ends in an entry, which parks the frame, or leaves the frame
    and the place where frames are parked as they are. -/
theorem deliverAmong_cases (s : SignalState) (frame : TrapFrame) (slots : List SignalSlot) :
    (∃ n s' after, s.deliverAmong frame slots = (.handler n, s', after) ∧
      s'.interrupted = some frame) ∨
    ∃ decision s', s.deliverAmong frame slots = (decision, s', frame) ∧
      (∀ n, decision ≠ .handler n) ∧ s'.interrupted = s.interrupted := by
  induction slots generalizing s with
  | nil => exact Or.inr ⟨.nothing, s, rfl, by simp, rfl⟩
  | cons n slots ih =>
      rw [deliverAmong]
      split
      · cases hhandler : s.handlers[n] with
        | ignore =>
            -- An ignored signal is consumed, and the search goes on without it.
            simpa only [interrupted_clear] using ih (s.clear n)
        | terminate => exact Or.inr ⟨.terminate n, s.clear n, rfl, by simp, rfl⟩
        | user entry => exact Or.inl ⟨n, _, _, rfl, rfl⟩
      · exact ih s

/-- While a handler runs nothing is delivered. -/
theorem deliver_of_inHandler {s : SignalState} (h : s.inHandler = true) (frame : TrapFrame) :
    s.deliver frame = (.nothing, s, frame) := by
  rw [deliver, if_pos h]

theorem deliver_of_not_inHandler {s : SignalState} (h : s.inHandler = false) (frame : TrapFrame) :
    s.deliver frame = s.deliverAmong frame (List.finRange Layout.signalSlots) := by
  rw [deliver, h]
  rfl

/-- Outside a handler there is nothing to return from. -/
theorem sigreturn_of_not_inHandler {s : SignalState} (h : s.inHandler = false)
    (frame : TrapFrame) : s.sigreturn frame = (false, s, frame) := by
  rw [inHandler, Option.isSome_eq_false_iff, Option.isNone_iff_eq_none] at h
  rw [sigreturn, h]

theorem sigreturn_of_inHandler {s : SignalState} (h : s.inHandler = true) (frame : TrapFrame) :
    (s.sigreturn frame).1 = true := by
  obtain ⟨saved, hsaved⟩ := Option.isSome_iff_exists.1 h
  rw [sigreturn, hsaved]

/-! ## One call -/

/-- How a call changes the parked frame, next to the mark that its event sets. -/
inductive Marked : Option TrapFrame → Option HandlerMark → Option TrapFrame → Prop
  | quiet (parked : Option TrapFrame) : Marked parked none parked
  | enter (frame : TrapFrame) : Marked none (some (.entered frame)) (some frame)
  | leave (frame : TrapFrame) : Marked (some frame) (some (.left frame)) none

theorem deliver_marked (s : SignalState) (frame : TrapFrame) :
    Marked s.interrupted (s.serve (.deliver frame)).1.mark?
      (s.serve (.deliver frame)).2.interrupted := by
  cases hinside : s.inHandler with
  | true =>
      simp only [serve, deliver_of_inHandler hinside]
      exact .quiet _
  | false =>
      have hnone : s.interrupted = none := by simpa [inHandler] using hinside
      rcases s.deliverAmong_cases frame (List.finRange Layout.signalSlots) with
        ⟨n, s', after, heq, hparked⟩ | ⟨decision, s', heq, hdecision, hparked⟩
      · simp only [serve, deliver_of_not_inHandler hinside, heq, hparked, hnone]
        exact .enter frame
      · simp only [serve, deliver_of_not_inHandler hinside, heq, hparked]
        cases decision with
        | handler n => exact absurd rfl (hdecision n)
        | nothing | terminate => exact .quiet _

theorem sigreturn_marked (s : SignalState) (frame : TrapFrame) :
    Marked s.interrupted (s.serve (.sigreturn frame)).1.mark?
      (s.serve (.sigreturn frame)).2.interrupted := by
  cases hparked : s.interrupted with
  | none =>
      simp only [serve, sigreturn, hparked]
      exact .quiet none
  | some saved =>
      simp only [serve, sigreturn, hparked]
      exact .leave saved

theorem serve_marked (s : SignalState) (call : SignalCall) :
    Marked s.interrupted (s.serve call).1.mark? (s.serve call).2.interrupted := by
  cases call with
  | post signum =>
      simp only [serve, interrupted_post]
      exact .quiet _
  | register signum handler =>
      simp only [serve, interrupted_register]
      exact .quiet _
  | deliver frame => exact s.deliver_marked frame
  | sigreturn frame => exact s.sigreturn_marked frame

end SignalState

/-! ## Runs -/

variable {log : List SignalEvent} {s : SignalState}

/-- The marks of a run are round trips, after which a handler may have been entered that
    still runs; its frame is the one that is parked. -/
theorem SignalRun.marks (run : SignalRun log s) :
    ∃ frames : List TrapFrame, log.filterMap SignalEvent.mark? =
      frames.flatMap roundTrip ++ s.interrupted.toList.map .entered := by
  induction run with
  | nil => exact ⟨[], rfl⟩
  | @step log s run call ih =>
      obtain ⟨frames, hmarks⟩ := ih
      have hstep := s.serve_marked call
      rw [List.filterMap_append, hmarks, List.filterMap_cons, List.filterMap_nil]
      generalize s.interrupted = parked at hstep ⊢
      generalize (s.serve call).1.mark? = mark at hstep ⊢
      generalize (s.serve call).2.interrupted = parked' at hstep ⊢
      cases hstep with
      | quiet => exact ⟨frames, by simp⟩
      | enter frame => exact ⟨frames, by simp⟩
      -- The handler that was running makes one more round trip.
      | leave frame => exact ⟨frames ++ [frame], by simp [roundTrip]⟩

/-- The parked frame is the one that the last entry interrupted. -/
theorem SignalRun.enteredFrom (run : SignalRun log s) {frame : TrapFrame}
    (h : s.interrupted = some frame) : EnteredFrom frame log := by
  induction run with
  | nil => cases h
  | @step log s run call ih =>
      have hstep := s.serve_marked call
      rw [h] at hstep
      generalize hparked : s.interrupted = parked at hstep
      generalize hmark : (s.serve call).1.mark? = mark at hstep
      cases hstep with
      | quiet => exact (ih hparked).snoc hmark
      | enter =>
          obtain ⟨n, after, hevent⟩ := SignalEvent.eq_delivered_of_mark? hmark
          exact ⟨log, n, after, [], by rw [hevent], by simp⟩

/-- A successful return leaves the task with the frame that the last entry interrupted. -/
theorem SignalRun.enteredFrom_of_returned (run : SignalRun log s) :
    ∀ {earlier later before after}, log = earlier ++ .returned before true after :: later →
      EnteredFrom after earlier := by
  induction run with
  | nil =>
      intro earlier later before after hlog
      simp at hlog
  | @step log s run call ih =>
      intro earlier later before after hlog
      rcases List.eq_nil_or_concat later with rfl | ⟨later, last, rfl⟩
      -- The return is what was asked for last.
      · obtain ⟨rfl, hevent⟩ := List.append_inj' hlog rfl
        have hstep := s.serve_marked call
        rw [(List.cons.inj hevent).1] at hstep
        generalize hparked : s.interrupted = parked at hstep
        generalize (s.serve call).2.interrupted = parked' at hstep
        cases hstep with
        | leave => exact run.enteredFrom hparked
      · rw [List.concat_eq_append, ← List.cons_append, ← List.append_assoc] at hlog
        exact ih (List.append_inj' hlog rfl).1

/-- After every run of calls, whatever frames they met: entries into a handler and successful
    returns alternate, and a return leaves the task with the very frame, in every register,
    that was given to the delivery which entered the handler. While a handler runs, delivery
    decides nothing and changes neither the frame nor the signals, and a return succeeds;
    while none runs, a return fails and changes nothing. -/
theorem handlers_round_trip (run : SignalRun log s) :
    (∃ frames : List TrapFrame, log.filterMap SignalEvent.mark? =
      frames.flatMap roundTrip ++ s.interrupted.toList.map .entered) ∧
    (∀ earlier before after later, log = earlier ++ .returned before true after :: later →
      EnteredFrom after earlier) ∧
    (s.inHandler = true → ∀ frame,
      s.deliver frame = (.nothing, s, frame) ∧ (s.sigreturn frame).1 = true) ∧
    (s.inHandler = false → ∀ frame, s.sigreturn frame = (false, s, frame)) := by
  refine ⟨run.marks, ?_, ?_, ?_⟩
  · intro earlier before after later hlog
    exact run.enteredFrom_of_returned hlog
  · intro hinside frame
    exact ⟨s.deliver_of_inHandler hinside frame, s.sigreturn_of_inHandler hinside frame⟩
  · intro houtside frame
    exact s.sigreturn_of_not_inHandler houtside frame

/-- While the handler of signal 10 runs, its slot gets another handler, two signals are
    posted and delivery is tried with another frame; the return ends it all the same. -/
theorem handlers_round_trip_busy :
    ∃ interrupted log s, SignalRun log s ∧ interrupted.pc = 0x1234 ∧ s.isPending 12 = true ∧
      log.filterMap SignalEvent.mark? = roundTrip interrupted ∧
      ∃ earlier before, log = earlier ++ [.returned before true interrupted] ∧
        EnteredFrom interrupted earlier := by
  let interrupted : TrapFrame := { TrapFrame.zero with pc := 0x1234 }
  let other : TrapFrame := { TrapFrame.zero with pc := 0x400, sp := 0x50 }
  have entered := ((SignalRun.nil.step (.register 10 (.user ⟨0x400⟩))).step (.post 10)).step
    (.deliver interrupted)
  have busy := (((entered.step (.register 10 .terminate)).step (.post 10)).step (.post 12)).step
    (.deliver other)
  have run := busy.step (.sigreturn other)
  obtain ⟨-, hreturned, -, -⟩ := handlers_round_trip run
  refine ⟨interrupted, _, _, run, rfl, by decide +kernel, by decide +kernel, _, other, rfl, ?_⟩
  exact hreturned _ other interrupted [] rfl

end TaskKernel
