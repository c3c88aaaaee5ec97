/-
  TaskKernel.Proofs.Machine.Audit

  Books over whole runs. The history of a machine's memory is everything that was asked of
  the frame source since the start; its returns all match allocations, what is left on the
  books is what the machine ought to have, and a pool's used pages are those on the books.
-/
import TaskKernel.Proofs.Machine.Accounting

namespace TaskKernel

/-! ## Histories -/

section

variable {F : Type} [FrameSource F] [LimitedSource F]

/-- `History start log mem` says that `log` is all that happened between `start` and `mem`;
    the frame source may have been limited meanwhile. -/
inductive History (start : Memory F) : List FrameEvent → Memory F → Prop
  | start : History start [] start
  | limit {log : List FrameEvent} {mem : Memory F} (history : History start log mem)
      (n : Nat) : History start log { mem with frames := LimitedSource.failAfter mem.frames n }
  | traffic {log events : List FrameEvent} {mem mem' : Memory F}
      (history : History start log mem) (traffic : Traffic mem events mem') :
      History start (log ++ events) mem'

end

namespace History

variable {start mem : Memory FramePool} {log : List FrameEvent}

/-- A pool stays booked as long as all returns match. -/
theorem booked (h : History start log mem) (haddr : start.frames.Addressable)
    {books : Multiset Allocation} (hsettle : settle 0 log = some books) :
    FramePool.Booked start.frames.heldFrames mem.frames books := by
  induction h generalizing books with
  | start =>
    cases hsettle
    exact FramePool.booked_start haddr
  | limit history n ih => exact (ih hsettle).of_used_eq rfl
  | traffic history traffic ih =>
    rw [settle_append] at hsettle
    obtain ⟨earlier, hearlier, hrest⟩ := Option.bind_eq_some_iff.1 hsettle
    have hbooked := ih hearlier
    rw [← add_zero earlier] at hbooked
    have hlater := (hbooked.traffic traffic hrest).1
    rwa [add_zero] at hlater

/-- The pool's own record of releases is the list of returns. -/
theorem releases (h : History start log mem) :
    mem.frames.releases =
      start.frames.releases ++ (returnsOf log).map fun a => (a.base, a.size) := by
  induction h with
  | start => exact (List.append_nil _).symm
  | limit history n ih => exact ih
  | traffic history traffic ih =>
    rw [releases_of_traffic traffic, ih, returnsOf_append, List.map_append, List.append_assoc]

/-- A pool keeps its size. -/
theorem length_used (h : History start log mem) :
    mem.frames.used.length = start.frames.used.length := by
  induction h with
  | start => rfl
  | limit history n ih => exact ih
  | traffic history traffic ih => exact (length_used_of_traffic traffic).trans ih

/-- A pool that is small enough at the start hands out pages all along. -/
theorem grantsPages (h : History start log mem) (haddr : start.frames.Addressable) :
    GrantsPages mem.frames := by
  refine FramePool.Addressable.grantsPages ?_
  rw [FramePool.Addressable, h.length_used]
  exact haddr

end History

namespace Machine

/-! ## Audited machines -/

section

variable {F : Type} [FrameSource F] [LimitedSource F]

/-- `log` is the history of the machine's memory, and settles at what the machine ought to
    have on the books. -/
structure Audited (start : Memory F) (log : List FrameEvent) (m : Machine F) : Prop where
  seated : m.scheduler.Seated
  sized : ∀ h ∈ m.holdings, h.Sized
  history : History start log m.memory
  settled : settle 0 log = some (m.accounts + tablesOf log)

theorem audited_fresh (start : Memory F) : Audited start [] (fresh start) where
  seated := Scheduler.seated_empty
  sized := List.forall_mem_nil _
  history := .start
  settled := rfl

variable {P S : Type} {start : Memory F} {log : List FrameEvent} {m m' : Machine F}
  {request : MachineRequest P S}

/-- The log goes on with what the request turned over. -/
theorem Audited.outcome (h : Audited start log m) (outcome : m.Outcome request m')
    (hseated : m'.scheduler.Seated) : ∃ events, Audited start (log ++ events) m' := by
  cases outcome with
  | limited n =>
    refine ⟨[], ?_⟩
    rw [List.append_nil]
    exact ⟨h.seated, h.sized, h.history.limit n, h.settled⟩
  | grown news more holdings sized accounts turnover =>
    obtain ⟨events, htraffic, hsettle⟩ := turnover
    refine ⟨events, hseated, ?_, h.history.traffic htraffic, ?_⟩
    · rw [holdings]
      exact List.forall_mem_append.2 ⟨h.sized, sized⟩
    -- What settles from nothing settles beside all that is on the books.
    · have hmore := settle_add hsettle (m.accounts + tablesOf log)
      rw [zero_add] at hmore
      rw [settle_append, h.settled, Option.bind_some, hmore, accounts, tablesOf_append]
      refine congrArg some ?_
      abel
  | reaped gone holdings accounts traffic =>
    refine ⟨(stacksOf gone).map .returned, hseated, ?_, h.history.traffic traffic, ?_⟩
    · exact fun holding hmem =>
        h.sized holding (holdings.mem_iff.2 (List.mem_append_right gone hmem))
    · rw [settle_append, h.settled, Option.bind_some, accounts, add_assoc, settle_returned,
        tablesOf_append, tablesOf_returned, add_zero]

variable [Platform P] [ImageSource S] [LawfulImageSource S]

/-- Every machine that a run leads to is audited. -/
theorem Run.audited {trampoline : PhysAddr} {Admits : Machine F → MachineRequest P S → Prop}
    (run : Run trampoline Admits (fresh start) m)
    (hpages : ∀ log mem, History start log mem → GrantsPages mem.frames) :
    ∃ log, Audited start log m := by
  induction run with
  | start => exact ⟨[], audited_fresh start⟩
  | step run request admitted ih =>
    obtain ⟨log, haudited⟩ := ih
    obtain ⟨outcome, hseated⟩ := perform_outcome trampoline haudited.seated
      (hpages log _ haudited.history) request
    obtain ⟨events, hnext⟩ := haudited.outcome outcome hseated
    exact ⟨_, hnext⟩

end

/-! ## What is on the books -/

section

variable {F : Type} {m : Machine F} {a : Allocation}

theorem mem_stacksOf {holdings : List Holding} {h : Holding} (hmem : h ∈ holdings)
    (ha : a ∈ h.stacks) : a ∈ stacksOf holdings :=
  List.mem_flatMap.2 ⟨h, hmem, ha⟩

theorem mem_accounts_of_images (ha : a ∈ m.supplied ++ m.launched) : a ∈ m.accounts := by
  rw [accounts, Multiset.mem_coe, ← List.append_assoc]
  exact List.mem_append_left _ ha

theorem mem_accounts_of_stacks {h : Holding} (hmem : h ∈ m.holdings) (ha : a ∈ h.stacks) :
    a ∈ m.accounts :=
  List.mem_append_right _ (List.mem_append_right _ (mem_stacksOf hmem ha))

end

theorem Audited.booked {start : Memory FramePool} {log : List FrameEvent} {m : Machine FramePool}
    (h : Audited start log m) (haddr : start.frames.Addressable) :
    FramePool.Booked start.frames.heldFrames m.memory.frames (m.accounts + tablesOf log) :=
  h.history.booked haddr h.settled

end Machine

end TaskKernel
