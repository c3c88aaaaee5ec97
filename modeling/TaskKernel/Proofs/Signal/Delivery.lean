/-
  TaskKernel.Proofs.Signal.Delivery

  What delivery takes out of the pending set. It goes through the pending signals in ascending
  order, drops those that are ignored and acts on the first that is not; the signals above
  that one stay. So a signal that was posted is pending until a delivery acts on it or drops
  it, whatever else is asked for in between.
-/
import TaskKernel.Proofs.Signal.RoundTrip

namespace TaskKernel

/-- The signal that a delivery acts on. -/
def Delivery.signum? : Delivery → Option Nat
  | nothing => none
  | terminate n => some n
  | handler n => some n

/-! ## Entering a handler -/

/-- The frame `after` calls the handler at `entry` for signal `n` and is otherwise the frame
    `before`. -/
structure TrapFrame.Entered (before after : TrapFrame) (entry : VirtAddr) (n : Nat) : Prop where
  argument : after.x[0] = BitVec.ofNat 64 n
  link : after.x[30] = Layout.trampolineWindow.raw
  pc : after.pc = entry.raw
  aligned : after.sp.toNat % 16 = 0
  registers : ∀ i : Fin 31, i ≠ 0 → i ≠ 30 → after.x[i] = before.x[i]
  psr : after.psr = before.psr

/-- Clearing the low four bits leaves a multiple of sixteen. -/
theorem toNat_and_mod_sixteen (w : Word) : (w &&& ~~~0xf#64).toNat % 16 = 0 := by
  have hlow : (w &&& ~~~0xf#64) &&& 0xf#64 = 0 := by
    rw [BitVec.and_assoc]
    simp
  have hmod := congrArg BitVec.toNat hlow
  rw [BitVec.toNat_and] at hmod
  rw [← Nat.and_two_pow_sub_one_eq_mod _ 4]
  exact hmod

theorem TrapFrame.entered_enterHandler (frame : TrapFrame) (entry : VirtAddr) (n : Nat) :
    frame.Entered (frame.enterHandler entry n) entry n where
  argument := (x_setReg_of_ne (i := 30) (j := 0) _ _ (by decide)).trans (x_setReg_self _ 0 _)
  link := x_setReg_self _ 30 _
  pc := rfl
  aligned := toNat_and_mod_sixteen _
  registers i hzero hlink := (x_setReg_of_ne _ _ hlink).trans (x_setReg_of_ne _ _ hzero)
  psr := rfl

namespace SignalState

variable {s s' : SignalState} {n : SignalSlot}

/-! ## What is due -/

/-- Signal `n` is the lowest pending one that is not ignored. -/
structure Due (s : SignalState) (n : SignalSlot) : Prop where
  pending : s.pending.getLsbD n = true
  heeded : s.handlers.get n ≠ .ignore
  first : ∀ m : SignalSlot, m < n → s.pending.getLsbD m = true → s.handlers.get m = .ignore

instance (s : SignalState) (n : SignalSlot) : Decidable (s.Due n) :=
  decidable_of_iff
    (s.pending.getLsbD n = true ∧ s.handlers.get n ≠ .ignore ∧
      ∀ m : SignalSlot, m < n → s.pending.getLsbD m = true → s.handlers.get m = .ignore)
    ⟨fun ⟨hpending, hheeded, hfirst⟩ => ⟨hpending, hheeded, hfirst⟩,
      fun due => ⟨due.pending, due.heeded, due.first⟩⟩

theorem Due.unique {m : SignalSlot} (h : s.Due m) (h' : s.Due n) : m = n := by
  rcases Nat.lt_trichotomy m n with hlt | heq | hgt
  · exact absurd (h'.first m hlt h.pending) h.heeded
  · exact Fin.ext heq
  · exact absurd (h.first n hgt h'.pending) h'.heeded

theorem pending_clear_iff {m : SignalSlot} :
    (s.clear m).pending.getLsbD n = true ↔ s.pending.getLsbD n = true ∧ n ≠ m := by
  rw [getLsbD_pending_clear, Bool.and_eq_true, decide_eq_true_iff, Ne, Ne, Fin.ext_iff]

/-- The signals with only those above `n` left pending. -/
def above (s : SignalState) (n : SignalSlot) : SignalState :=
  { s with pending := s.pending &&& BitVec.allOnes 32 <<< (n.val + 1) }

theorem getLsbD_pending_above (s : SignalState) (n : SignalSlot) (i : Nat) :
    (s.above n).pending.getLsbD i = (s.pending.getLsbD i && decide (n.val < i)) := by
  by_cases hi : i < 32
  · have hshift : (BitVec.allOnes 32 <<< (n.val + 1)).getLsbD i = decide (n.val < i) := by
      rw [BitVec.getLsbD_shiftLeft, BitVec.getLsbD_allOnes]
      simp only [hi, decide_true, Bool.true_and]
      by_cases hle : n.val < i
      · have hlow : ¬ i < n.val + 1 := by omega
        have hhigh : i - (n.val + 1) < 32 := by omega
        simp [hle, hlow, hhigh]
      · have hlow : i < n.val + 1 := by omega
        simp [hle, hlow]
    rw [above, BitVec.getLsbD_and, hshift]
  · have hge : 32 ≤ i := Nat.le_of_not_lt hi
    rw [BitVec.getLsbD_of_ge _ i hge, BitVec.getLsbD_of_ge _ i hge, Bool.false_and]

/-- With nothing pending below `n`, taking out `n` leaves the signals above it. -/
theorem clear_eq_above (h : ∀ m : SignalSlot, s.pending.getLsbD m = true → n ≤ m) :
    s.clear n = s.above n := by
  have hpending : (s.clear n).pending = (s.above n).pending := by
    apply BitVec.eq_of_getLsbD_eq
    intro i hi
    rw [getLsbD_pending_clear, getLsbD_pending_above]
    cases hbit : s.pending.getLsbD i with
    | false => rfl
    | true =>
        have hle : n.val ≤ i := h ⟨i, hi⟩ hbit
        rw [Bool.true_and, Bool.true_and, decide_eq_decide]
        omega
  exact congrArg (fun pending => { s with pending }) hpending

/-- What is above `n` stays when a signal below it is taken out. -/
theorem above_clear {m : SignalSlot} (h : m < n) : (s.clear m).above n = s.above n := by
  have hpending : ((s.clear m).above n).pending = (s.above n).pending := by
    apply BitVec.eq_of_getLsbD_eq
    intro i hi
    rw [getLsbD_pending_above, getLsbD_pending_clear, getLsbD_pending_above, Bool.and_assoc]
    congr 1
    have hval : m.val < n.val := h
    rw [← Bool.decide_and, decide_eq_decide]
    omega
  exact congrArg (fun pending => { s with pending }) hpending

theorem due_of_clear {m : SignalSlot} (hignored : s.handlers.get m = .ignore)
    (h : (s.clear m).Due n) : s.Due n := by
  refine ⟨(pending_clear_iff.1 h.pending).1, h.heeded, fun k hk hbit => ?_⟩
  by_cases heq : k = m
  · rw [heq]
    exact hignored
  · exact h.first k hk (pending_clear_iff.2 ⟨hbit, heq⟩)

/-! ## One delivery -/

/-- How a delivery that is not held up by a handler ends. -/
inductive Delivered (s : SignalState) (frame : TrapFrame) :
    Delivery × SignalState × TrapFrame → Prop
  | nothing (ignored : ∀ m : SignalSlot, s.pending.getLsbD m = true → s.handlers.get m = .ignore) :
      Delivered s frame (.nothing, { s with pending := 0 }, frame)
  | terminate {n : SignalSlot} (due : s.Due n) (fatal : s.handlers.get n = .terminate) :
      Delivered s frame (.terminate n, s.above n, frame)
  | handler {n : SignalSlot} {entry : VirtAddr} (due : s.Due n)
      (caught : s.handlers.get n = .user entry) :
      Delivered s frame
        (.handler n, { s.above n with interrupted := some frame }, frame.enterHandler entry n)

/-- A delivery that drops an ignored signal ends like one that never saw it. -/
theorem Delivered.of_clear {m : SignalSlot} {frame : TrapFrame}
    {result : Delivery × SignalState × TrapFrame} (hignored : s.handlers.get m = .ignore)
    (hleast : ∀ k : SignalSlot, s.pending.getLsbD k = true → m ≤ k)
    (h : Delivered (s.clear m) frame result) : Delivered s frame result := by
  have hlt {n : SignalSlot} (due : (s.clear m).Due n) : m < n := by
    obtain ⟨hpending, hne⟩ := pending_clear_iff.1 due.pending
    exact Nat.lt_of_le_of_ne (hleast n hpending) fun heq => hne (Fin.ext heq.symm)
  cases h with
  | nothing ignored =>
      refine .nothing fun k hk => ?_
      by_cases heq : k = m
      · rw [heq]
        exact hignored
      · exact ignored k (pending_clear_iff.2 ⟨hk, heq⟩)
  | terminate due fatal =>
      rw [above_clear (hlt due)]
      exact .terminate (due_of_clear hignored due) fatal
  | handler due caught =>
      rw [above_clear (hlt due)]
      exact .handler (due_of_clear hignored due) caught

theorem deliverAmong_delivered (s : SignalState) (frame : TrapFrame) {slots : List SignalSlot}
    (hsorted : slots.Pairwise (· < ·))
    (hall : ∀ m : SignalSlot, s.pending.getLsbD m = true → m ∈ slots) :
    Delivered s frame (s.deliverAmong frame slots) := by
  -- On the slots still to be looked at: they are ascending and hold all that is pending.
  induction slots generalizing s with
  | nil =>
      have hzero : s.pending = 0 := by
        apply BitVec.eq_of_getLsbD_eq
        intro i hi
        refine (Bool.eq_false_iff.2 fun hbit => ?_).trans BitVec.getLsbD_zero.symm
        exact List.not_mem_nil (hall ⟨i, hi⟩ hbit)
      have hnothing : Delivered s frame (.nothing, { s with pending := 0 }, frame) :=
        .nothing fun m hm => absurd (hall m hm) List.not_mem_nil
      rwa [← hzero] at hnothing
  | cons n slots ih =>
      obtain ⟨hbelow, hsorted⟩ := List.pairwise_cons.1 hsorted
      have hleast (m : SignalSlot) (hm : s.pending.getLsbD m = true) : n ≤ m := by
        rcases List.mem_cons.1 (hall m hm) with rfl | hmem
        · exact Fin.le_refl m
        · exact Fin.le_of_lt (hbelow m hmem)
      have hfirst (m : SignalSlot) (hlt : m < n) (hm : s.pending.getLsbD m = true) :
          s.handlers.get m = .ignore :=
        absurd (hleast m hm) (Fin.not_le.2 hlt)
      rw [deliverAmong]
      split
      · next hbit =>
        have hdue (hheeded : s.handlers.get n ≠ .ignore) : s.Due n := ⟨hbit, hheeded, hfirst⟩
        cases hhandler : s.handlers[n] with
        | ignore =>
            refine (ih (s.clear n) hsorted fun m hm => ?_).of_clear hhandler hleast
            obtain ⟨hbit', hne⟩ := pending_clear_iff.1 hm
            exact (List.mem_cons.1 (hall m hbit')).resolve_left hne
        | terminate =>
            rw [clear_eq_above hleast]
            exact .terminate (hdue fun h => Handler.noConfusion (hhandler.symm.trans h)) hhandler
        | user entry =>
            rw [clear_eq_above hleast]
            exact .handler (hdue fun h => Handler.noConfusion (hhandler.symm.trans h)) hhandler
      · next hbit =>
        refine ih s hsorted fun m hm => (List.mem_cons.1 (hall m hm)).resolve_left ?_
        rintro rfl
        exact hbit hm

theorem deliver_delivered (h : s.inHandler = false) (frame : TrapFrame) :
    Delivered s frame (s.deliver frame) := by
  rw [deliver_of_not_inHandler h]
  exact s.deliverAmong_delivered frame (List.pairwise_lt_finRange _) fun m _ => List.mem_finRange m

/-- What a delivery acts on, and what it leaves pending. -/
theorem Delivered.pending_cases {frame : TrapFrame} {result : Delivery × SignalState × TrapFrame}
    (h : Delivered s frame result) :
    (result.1.signum? = none ∧
      (∀ m : SignalSlot, s.pending.getLsbD m = true → s.handlers.get m = .ignore) ∧
      result.2.1.pending = 0) ∨
    ∃ m : SignalSlot, s.Due m ∧ result.1.signum? = some m.val ∧
      result.2.1.pending = (s.above m).pending := by
  cases h with
  | nothing ignored => exact Or.inl ⟨rfl, ignored, rfl⟩
  | terminate due fatal => exact Or.inr ⟨_, due, rfl, rfl⟩
  | handler due caught => exact Or.inr ⟨_, due, rfl, rfl⟩

theorem Delivered.signum_iff {frame : TrapFrame} {result : Delivery × SignalState × TrapFrame}
    (h : Delivered s frame result) (i : Nat) :
    result.1.signum? = some i ↔ ∃ m : SignalSlot, m.val = i ∧ s.Due m := by
  rcases h.pending_cases with ⟨hnone, hignored, -⟩ | ⟨m, due, hsome, -⟩
  · rw [hnone]
    refine ⟨nofun, ?_⟩
    rintro ⟨k, -, due⟩
    exact absurd (hignored k due.pending) due.heeded
  · rw [hsome, Option.some_inj]
    refine ⟨fun hval => ⟨m, hval, due⟩, ?_⟩
    rintro ⟨k, rfl, due'⟩
    rw [due.unique due']

/-- A delivery with a signal due takes it with all that is below it. -/
theorem Delivered.of_due {frame after : TrapFrame} {decision : Delivery}
    (h : Delivered s frame (decision, s', after)) (due : s.Due n) :
    (∀ i, s'.pending.getLsbD i = (s.pending.getLsbD i && decide (n.val < i))) ∧
    (decision = .terminate n ∧ s.handlers.get n = .terminate ∧ after = frame ∨
      ∃ entry, decision = .handler n ∧ s.handlers.get n = .user entry ∧
        frame.Entered after entry n) := by
  cases h with
  | nothing ignored => exact absurd (ignored n due.pending) due.heeded
  | terminate due' fatal =>
      obtain rfl := due.unique due'
      exact ⟨s.getLsbD_pending_above n, Or.inl ⟨rfl, fatal, rfl⟩⟩
  | handler due' caught =>
      obtain rfl := due.unique due'
      exact ⟨s.getLsbD_pending_above n,
        Or.inr ⟨_, rfl, caught, frame.entered_enterHandler _ n⟩⟩

/-- A delivery with nothing due drops all that is pending. -/
theorem Delivered.of_not_due {frame after : TrapFrame} {decision : Delivery}
    (h : Delivered s frame (decision, s', after)) (hnone : ∀ m, ¬ s.Due m) :
    decision = .nothing ∧ s'.pending = 0 ∧ after = frame ∧
      ∀ m : SignalSlot, s.pending.getLsbD m = true → s.handlers.get m = .ignore := by
  cases h with
  | nothing ignored => exact ⟨rfl, rfl, rfl, ignored⟩
  | terminate due fatal | handler due caught => exact absurd due (hnone _)

theorem Delivered.handlers_eq {frame : TrapFrame} {result : Delivery × SignalState × TrapFrame}
    (h : Delivered s frame result) : result.2.1.handlers = s.handlers := by
  cases h <;> rfl

/-- A delivery leaves the handlers and the flag of the return page as they are. -/
theorem deliver_keeps (s : SignalState) (frame : TrapFrame) :
    (s.deliver frame).2.1.handlers = s.handlers ∧
      (s.deliver frame).2.1.trampolineMapped = s.trampolineMapped := by
  cases hinside : s.inHandler with
  | true =>
      rw [deliver_of_inHandler hinside]
      exact ⟨rfl, rfl⟩
  | false =>
      generalize hresult : s.deliver frame = result
      have hdelivered := deliver_delivered hinside frame
      rw [hresult] at hdelivered
      cases hdelivered <;> exact ⟨rfl, rfl⟩

/-! ## What each call does to the pending set -/

theorem pending_register (s : SignalState) (signum : Int) (handler : Handler) :
    (s.register signum handler).2.pending = s.pending := by
  rw [register]
  split
  · rfl
  · split <;> rfl

theorem pending_sigreturn (s : SignalState) (frame : TrapFrame) :
    (s.sigreturn frame).2.1.pending = s.pending := by
  rw [sigreturn]
  split <;> rfl

theorem post_of_slot {signum : Int} (h : signalSlot signum = .ok n) :
    s.post signum = (.ok (), { s with pending := s.pending ||| BitVec.twoPow 32 n }) := by
  rw [post, h]

/-- Slot 0 belongs to no signal. -/
theorem slot_pos {signum : Int} (h : signalSlot signum = .ok n) : 0 < n.val := by
  rw [signalSlot] at h
  split at h
  · next hrange =>
    cases h
    show 0 < signum.toNat
    omega
  · cases h

/-- Posting adds the signal that it names and nothing else. -/
theorem pending_post_iff {signum : Int} {i : Nat} :
    (s.post signum).2.pending.getLsbD i = true ↔
      s.pending.getLsbD i = true ∨ ∃ m : SignalSlot, signalSlot signum = .ok m ∧ m.val = i := by
  cases hslot : signalSlot signum with
  | error e =>
      rw [post, hslot]
      simp
  | ok m =>
      have hlt : m.val < 32 := m.isLt
      rw [post_of_slot hslot, BitVec.getLsbD_or, Bool.or_eq_true, BitVec.getLsbD_twoPow,
        decide_eq_true hlt, Bool.true_and, decide_eq_true_iff]
      simp

/-- A delivery makes no signal pending. -/
theorem Delivered.pending_of_pending {frame : TrapFrame}
    {result : Delivery × SignalState × TrapFrame} (h : Delivered s frame result) {i : Nat}
    (hbit : result.2.1.pending.getLsbD i = true) : s.pending.getLsbD i = true := by
  rcases h.pending_cases with ⟨-, -, hpending⟩ | ⟨m, -, -, hpending⟩
  · rw [hpending] at hbit
    exact absurd (BitVec.getLsbD_zero.symm.trans hbit) Bool.false_ne_true
  · rw [hpending, getLsbD_pending_above, Bool.and_eq_true] at hbit
    exact hbit.1

/-- No call makes the bit of slot 0 pending. -/
theorem serve_zero (h : s.pending.getLsbD 0 = false) (call : SignalCall) :
    (s.serve call).2.pending.getLsbD 0 = false := by
  cases call with
  | post signum =>
      rw [Bool.eq_false_iff]
      intro hbit
      rcases pending_post_iff.1 hbit with hold | ⟨m, hslot, hzero⟩
      · exact absurd hold (Bool.eq_false_iff.1 h)
      · exact absurd hzero (Nat.ne_of_gt (slot_pos hslot))
  | register signum handler => exact (congrArg (·.getLsbD 0) (s.pending_register ..)).trans h
  | deliver frame =>
      show (s.deliver frame).2.1.pending.getLsbD 0 = false
      cases hinside : s.inHandler with
      | true =>
          rw [deliver_of_inHandler hinside]
          exact h
      | false =>
          rw [Bool.eq_false_iff]
          intro hbit
          exact absurd ((deliver_delivered hinside frame).pending_of_pending hbit)
            (Bool.eq_false_iff.1 h)
  | sigreturn frame => exact (congrArg (·.getLsbD 0) (s.pending_sigreturn frame)).trans h

/-! ## Waiting -/

/-- The call is a delivery that acts on signal `n`, or that passes it by and drops it because
    it is ignored. -/
def Takes (s : SignalState) (n : SignalSlot) : SignalCall → Prop
  | .deliver frame =>
    (s.deliver frame).1.signum? = some n.val ∨
      s.inHandler = false ∧ s.handlers.get n = .ignore ∧
        ∀ m, (s.deliver frame).1.signum? = some m → n.val < m
  | _ => False

/-- Calls of which none takes signal `n` lead from `s` to the second state. -/
inductive Untaken (n : SignalSlot) (s : SignalState) : SignalState → Prop
  | refl : Untaken n s s
  | step {s' : SignalState} (course : Untaken n s s') (call : SignalCall)
      (kept : ¬ s'.Takes n call) : Untaken n s (s'.serve call).2

/-- A pending signal stays pending in every call that does not take it. -/
theorem serve_kept {call : SignalCall} (hbit : s.pending.getLsbD n = true)
    (kept : ¬ s.Takes n call) : (s.serve call).2.pending.getLsbD n = true := by
  cases call with
  | post signum => exact pending_post_iff.2 (Or.inl hbit)
  | register signum handler => exact (congrArg (·.getLsbD n) (s.pending_register ..)).trans hbit
  | sigreturn frame => exact (congrArg (·.getLsbD n) (s.pending_sigreturn frame)).trans hbit
  | deliver frame =>
      show (s.deliver frame).2.1.pending.getLsbD n = true
      cases hinside : s.inHandler with
      | true =>
          rw [deliver_of_inHandler hinside]
          exact hbit
      | false =>
          have hdelivered := deliver_delivered hinside frame
          rw [Takes, not_or] at kept
          obtain ⟨hnot, hpassed⟩ := kept
          rcases (deliver_delivered hinside frame).pending_cases with
            ⟨hnone, hignored, -⟩ | ⟨m, due, hsome, hpending⟩
          · rw [hnone] at hpassed
            exact absurd ⟨hinside, hignored n hbit, nofun⟩ hpassed
          · -- Signals below the one acted on are dropped, and this one was not.
            rw [hsome] at hnot hpassed
            have hlt : m.val < n.val := by
              rcases Nat.lt_trichotomy n m with hlt | heq | hgt
              · refine absurd ⟨hinside, due.first n hlt hbit, fun k hk => ?_⟩ hpassed
                rwa [← Option.some.inj hk]
              · exact absurd (congrArg some heq.symm) hnot
              · exact hgt
            rw [hpending, getLsbD_pending_above, hbit, decide_eq_true hlt]
            rfl

theorem Untaken.kept (course : Untaken n s s') (hbit : s.pending.getLsbD n = true) :
    s'.pending.getLsbD n = true := by
  induction course with
  | refl => exact hbit
  | step _ call kept ih => exact serve_kept ih kept

end SignalState

/-! ## Runs -/

variable {log : List SignalEvent} {s : SignalState}

theorem SignalRun.pending_zero (run : SignalRun log s) : s.pending.getLsbD 0 = false := by
  induction run with
  | nil => rfl
  | step _ call ih => exact SignalState.serve_zero ih call

/-- After every run of calls: a delivery that no handler holds up acts on the lowest pending
    signal that is not ignored, if there is one, terminating the task or calling its handler;
    it leaves pending just the signals above that one, and those it drops below were ignored.
    With none to act on it drops all that is pending. A signal that is posted stays pending
    through all calls up to the delivery that takes it, and slot 0 is never pending. -/
theorem signals_taken_in_order (run : SignalRun log s) :
    (s.inHandler = false → ∀ frame decision s' after, s.deliver frame = (decision, s', after) →
      (∀ n : Nat, decision.signum? = some n ↔ ∃ slot : SignalSlot, slot.val = n ∧ s.Due slot) ∧
      (∀ n : SignalSlot, s.Due n →
        (∀ i, s'.pending.getLsbD i = (s.pending.getLsbD i && decide (n.val < i))) ∧
        (decision = .terminate n ∧ s.handlers.get n = .terminate ∧ after = frame ∨
          ∃ entry, decision = .handler n ∧ s.handlers.get n = .user entry ∧
            frame.Entered after entry n)) ∧
      ((∀ n, ¬ s.Due n) → decision = .nothing ∧ s'.pending = 0 ∧ after = frame ∧
        ∀ m : SignalSlot, s.pending.getLsbD m = true → s.handlers.get m = .ignore) ∧
      s'.handlers = s.handlers) ∧
    (∀ signum, (s.post signum).1 = .ok () → ∃ n, signalSlot signum = .ok n ∧
      ∀ s', SignalState.Untaken n (s.post signum).2 s' → s'.isPending signum = true) ∧
    s.pending.getLsbD 0 = false := by
  refine ⟨fun houtside frame decision s' after heq => ?_, fun signum hok => ?_, run.pending_zero⟩
  · have hdelivered := SignalState.deliver_delivered houtside frame
    rw [heq] at hdelivered
    exact ⟨hdelivered.signum_iff, fun n => hdelivered.of_due, hdelivered.of_not_due,
      hdelivered.handlers_eq⟩
  · cases hslot : signalSlot signum with
    | error e =>
        rw [SignalState.post, hslot] at hok
        cases hok
    | ok n =>
        refine ⟨n, rfl, fun s' course => ?_⟩
        rw [SignalState.isPending, hslot]
        exact course.kept (SignalState.pending_post_iff.2 (Or.inr ⟨n, hslot, rfl⟩))

/-- Handlers for signals 5 and 12, and signals 3 and 5 pending. -/
def signalsInLine : SignalState :=
  ((((SignalState.new.serve (.register 5 (.user ⟨0x500⟩))).2.serve
    (.register 12 (.user ⟨0x600⟩))).2.serve (.post 5)).2.serve (.post 3)).2

/-- Delivery drops signal 3, which is ignored, and enters the handler of signal 5. A signal 12
    that was posted before waits through that handler and is still pending when it has
    returned. -/
theorem signals_taken_in_order_waiting :
    ∃ log s' frame after s'', SignalRun log signalsInLine ∧
      signalsInLine.deliver frame = (.handler 5, s', after) ∧ frame.Entered after ⟨0x500⟩ 5 ∧
      s'.isPending 3 = false ∧ SignalState.Untaken ⟨12, by decide⟩ (signalsInLine.post 12).2 s'' ∧
      s''.inHandler = false ∧ s''.isPending 5 = false ∧ s''.isPending 12 = true := by
  let frame : TrapFrame := { TrapFrame.zero with pc := 0x1234, sp := 0x8008 }
  have run := (((SignalRun.nil.step (.register 5 (.user ⟨0x500⟩))).step
    (.register 12 (.user ⟨0x600⟩))).step (.post 5)).step (.post 3)
  obtain ⟨hdelivery, hwaiting, -⟩ := signals_taken_in_order (s := signalsInLine) run
  obtain ⟨-, hdue, -⟩ := hdelivery (by decide +kernel) frame _ _ _ rfl
  obtain ⟨hpending, hacted⟩ := hdue ⟨5, by decide⟩ (by decide +kernel)
  -- Signal 12 has a handler, and it is not the one that the delivery acts on.
  have hpassed : ¬ (signalsInLine.post 12).2.Takes ⟨12, by decide⟩ (.deliver frame) := by
    rintro (hsome | ⟨-, hignored, -⟩)
    · revert hsome
      decide +kernel
    · revert hignored
      decide +kernel
  have course := (SignalState.Untaken.refl.step (.deliver frame) hpassed).step
    (.sigreturn frame) id
  obtain ⟨n, hslot, hwaits⟩ := hwaiting 12 rfl
  cases hslot
  rcases hacted with ⟨hkilled, -⟩ | ⟨entry, hdecision, hhandler, hentered⟩
  · cases hkilled
  · obtain rfl : entry = ⟨0x500⟩ := by
      have hslot : signalsInLine.handlers.get ⟨5, by decide⟩ = .user ⟨0x500⟩ := by
        decide +kernel
      exact Handler.user.inj (hhandler.symm.trans hslot)
    exact ⟨_, _, frame, _, _, run, Prod.ext hdecision rfl, hentered, hpending 3, course,
      by decide +kernel, by decide +kernel, hwaits _ course⟩

end TaskKernel
