/-
  TaskKernel.Proofs.Machine.FrameAccounts

  Exact accounts of a machine's frames. Its frame source keeps a record of all that it hands
  out and takes back, and the record tells the whole truth: every return matches an
  allocation that is out, and what is out are the images, the stacks of the live tasks and
  the tables of all spaces that were ever made.
-/
import TaskKernel.Proofs.Machine.Audit
import TaskKernel.Proofs.Machine.Tabled

namespace TaskKernel

/-! ## Recorded histories -/

namespace History

variable {F : Type} [FrameSource F] [LimitedSource F] {start mem : Memory (Recorded F)}
  {log : List FrameEvent}

/-- The source itself has the same history. -/
theorem unrecorded (h : History start log mem) :
    History start.unrecorded log mem.unrecorded := by
  induction h with
  | start => exact .start
  | limit history n ih => exact ih.limit n
  | traffic history traffic ih => exact ih.traffic traffic.unrecorded

/-- The record is the log, as far as a frame source can see it. -/
theorem calls (h : History start log mem) :
    mem.frames.calls = start.frames.calls ++ log.map FrameEvent.seen := by
  induction h with
  | start => exact (List.append_nil _).symm
  | limit history n ih => exact ih
  | traffic history traffic ih => rw [traffic.calls, ih, List.map_append, List.append_assoc]

end History

theorem map_seen_returned (back : List Allocation) :
    (back.map FrameEvent.returned).map FrameEvent.seen = back.map .returned :=
  List.map_map

theorem returnsOf_seen (events : List FrameEvent) :
    returnsOf (events.map FrameEvent.seen) = returnsOf events := by
  rw [returnsOf, returnsOf, List.filterMap_map]
  refine List.filterMap_congr fun event _ => ?_
  cases event <;> rfl

/-! ## The tables on the books -/

theorem ofTable_base_of_mem {events : List FrameEvent} {a : Allocation}
    (h : a ∈ tablesOf events) : .ofTable a.base = a := by
  obtain ⟨event, -, htable⟩ := List.mem_filterMap.1 (Multiset.mem_coe.1 h)
  cases event with
  | table base =>
    cases htable
    rfl
  | _ => cases htable

/-- The tables that were taken, told by where they stand. -/
theorem map_ofTable_base (events : List FrameEvent) :
    ((tablesOf events).map Allocation.base).map .ofTable = tablesOf events := by
  rw [Multiset.map_map]
  exact (Multiset.map_congr rfl fun a ha => ofTable_base_of_mem ha).trans (Multiset.map_id _)

/-- Each table stands in one frame. -/
theorem framesOf_map_ofTable (tables : Multiset PhysAddr) :
    framesOf (tables.map .ofTable) = Address.frameNumber '' {table | table ∈ tables} := by
  ext n
  constructor
  · rintro ⟨a, ha, hn⟩
    obtain ⟨table, htable, rfl⟩ := Multiset.mem_map.1 ha
    rw [Allocation.frames, Allocation.ofTable, framesFrom_pageSize] at hn
    exact ⟨table, htable, hn.symm⟩
  · rintro ⟨table, htable, rfl⟩
    exact ⟨_, Multiset.mem_map_of_mem _ htable, Allocation.frameNumber_mem (.ofTable table)⟩

namespace Machine

/-! ## Returns of a single request -/

section

variable {P S : Type} {F : Type}

/-- What becomes of a task's stacks in a request that comes to `calls` at the frame source. -/
inductive StacksAfter (request : MachineRequest P S) (m' : Machine F) (calls : List FrameEvent)
    (h : Holding) : Prop
  | kept (live : h ∈ m'.holdings) (untouched : ∀ a ∈ h.stacks, .returned a ∉ calls)
  | reaped (reaping : ∃ hw, request = .ask .reap hw) (gone : h ∉ m'.holdings)
      (once : ∀ a ∈ h.stacks, calls.count (.returned a) = 1)

end

section

variable {P S : Type} {start : Memory (Recorded FramePool)} {log : List FrameEvent}
  {m m' : Machine (Recorded FramePool)} {request : MachineRequest P S}

theorem Audited.booked_source (h : Audited start log m)
    (haddr : start.frames.source.Addressable) :
    FramePool.Booked start.frames.source.heldFrames m.memory.frames.source
      (m.accounts + tablesOf log) :=
  h.history.unrecorded.booked haddr h.settled

/-- No stack is on the books twice. -/
theorem Audited.nodup_stacks (h : Audited start log m)
    (haddr : start.frames.source.Addressable) : (stacksOf m.holdings).Nodup := by
  have haccounts := (Multiset.nodup_add.1 (h.booked_source haddr).nodup).1
  rw [accounts, Multiset.coe_nodup] at haccounts
  exact (List.nodup_append.1 (List.nodup_append.1 haccounts).2.1).2.1

/-- A request either leaves a task's stacks alone or, reaping the task, returns each once. -/
theorem Audited.stacks (h : Audited start log m) (haddr : start.frames.source.Addressable)
    (outcome : m.Outcome request m') :
    ∃ calls, m'.memory.frames.calls = m.memory.frames.calls ++ calls ∧
      ∀ holding ∈ m.holdings, StacksAfter request m' calls holding := by
  cases outcome with
  | limited n =>
    exact ⟨[], (List.append_nil _).symm, fun holding hmem => .kept hmem fun _ _ => List.not_mem_nil⟩
  | grown news more holdings sized accounts turnover =>
    obtain ⟨events, htraffic, hsettle⟩ := turnover
    refine ⟨_, htraffic.calls, fun holding hmem => .kept ?_ fun a ha hreturned => ?_⟩
    · rw [holdings]
      exact List.mem_append_left news hmem
    -- The request settles on its own, so nothing that was on the books before came back.
    · have hbooked := h.booked_source haddr
      rw [← zero_add (m.accounts + tablesOf log)] at hbooked
      exact (FramePool.Booked.traffic hbooked htraffic.unrecorded hsettle).2 a
        (returned_mem_seen.1 hreturned)
        (Multiset.mem_add.2 (Or.inl (mem_accounts_of_stacks hmem ha)))
  | @reaped hw _ gone holdings accounts traffic =>
    have hcalls := traffic.calls
    rw [map_seen_returned] at hcalls
    -- Each stack was on the books once, so the returned ones belong to nobody who stays.
    have hnodup := (stacksOf_perm holdings).nodup_iff.1 (h.nodup_stacks haddr)
    obtain ⟨hgone, -, hapart⟩ := List.nodup_append.1 hnodup
    have hinjective : Function.Injective FrameEvent.returned := fun _ _ heq =>
      FrameEvent.returned.inj heq
    refine ⟨_, hcalls, fun holding hmem => ?_⟩
    rcases List.mem_append.1 (holdings.mem_iff.1 hmem) with hleft | hstays
    · refine .reaped ⟨hw, rfl⟩ (fun hstays => ?_) fun a ha => ?_
      · exact hapart _ (mem_stacksOf hleft List.mem_cons_self) _
          (mem_stacksOf hstays List.mem_cons_self) rfl
      · rw [List.count_map_of_injective _ _ hinjective]
        exact List.count_eq_one_of_mem hgone (mem_stacksOf hleft ha)
    · refine .kept hstays fun a ha hreturned => ?_
      rw [List.mem_map_of_injective hinjective] at hreturned
      exact hapart a hreturned a (mem_stacksOf hstays ha) rfl

end

/-! ## Exact accounts -/

/-- All tables of the spaces that were ever made. -/
def tables {F : Type} (m : Machine F) : Set PhysAddr :=
  tablesUnder m.memory.ram {root | root ∈ m.roots}

/-- What ought to be out: the allocations of the accounts, and a frame for each table. -/
def books {F : Type} (m : Machine F) (tables : Finset PhysAddr) : Multiset Allocation :=
  m.accounts + tables.val.map .ofTable

/-- According to the record of the frame source every return matched an allocation that was
    out, and what is out are the books: all of it once, apart from each other, and nothing
    else in use. -/
structure Accounted (m : Machine (Recorded FramePool)) (tables : Finset PhysAddr) : Prop where
  settled : settle 0 m.memory.frames.calls = some (m.books tables)
  releases : m.memory.frames.source.releases =
    (returnsOf m.memory.frames.calls).map fun a => (a.base, a.size)
  nodup : (m.books tables).Nodup
  disjoint : ∀ a ∈ m.books tables, ∀ b ∈ m.books tables, a ≠ b → Disjoint a.frames b.frames
  held : m.memory.frames.source.heldFrames = framesOf (m.books tables)
  stackPages : ∀ h ∈ m.holdings, pageCount h.kernelStack.size + pageCount h.userStack.size = 4

theorem heldFrames_ofPages (pages : Nat) : (FramePool.ofPages pages).heldFrames = ∅ := by
  ext n
  simp only [FramePool.heldFrames, FramePool.ofPages, Set.mem_ofPred_eq, Set.mem_empty_iff_false,
    iff_false]
  rintro ⟨i, hi, -⟩
  rw [List.getElem?_replicate] at hi
  split at hi <;> cases hi

/-- A recorded pool that nobody has used. -/
def unused (pages : Nat) : Recorded FramePool := ⟨.ofPages pages, []⟩

section

variable {ram : Ram} {pages : Nat} {log : List FrameEvent} {m : Machine (Recorded FramePool)}

/-- The log has each table once. -/
theorem Audited.exists_tables (h : Audited ⟨ram, unused pages⟩ log m)
    (haddr : (FramePool.ofPages pages).Addressable) :
    ∃ tables : Finset PhysAddr, tables.val.map .ofTable = tablesOf log := by
  have hnodup := (Multiset.nodup_add.1 (h.booked_source haddr).nodup).2.1
  rw [← map_ofTable_base] at hnodup
  exact ⟨⟨_, hnodup.of_map⟩, map_ofTable_base log⟩

variable {tables : Finset PhysAddr}

theorem Audited.booked_books (h : Audited ⟨ram, unused pages⟩ log m)
    (haddr : (FramePool.ofPages pages).Addressable)
    (htables : tables.val.map .ofTable = tablesOf log) :
    FramePool.Booked ∅ m.memory.frames.source (m.books tables) := by
  have hbooked := h.booked_source haddr
  rw [← htables] at hbooked
  rw [← heldFrames_ofPages pages]
  exact hbooked

/-- The record settles as the log does. -/
theorem Audited.accounted (h : Audited ⟨ram, unused pages⟩ log m)
    (haddr : (FramePool.ofPages pages).Addressable)
    (htables : tables.val.map .ofTable = tablesOf log) : Accounted m tables := by
  have hbooked := h.booked_books haddr htables
  have hcalls : m.memory.frames.calls = log.map FrameEvent.seen := h.history.calls
  refine ⟨?_, ?_, hbooked.nodup, hbooked.disjoint, ?_, fun holding hmem => ?_⟩
  · rw [hcalls, settle_seen, h.settled, books, htables]
  · rw [hcalls, returnsOf_seen]
    exact h.history.unrecorded.releases
  · rw [hbooked.held, Set.empty_union]
    rfl
  · obtain ⟨hkernel, huser⟩ := h.sized holding hmem
    rw [hkernel, huser]
    decide

/-- A table for each frame that has no other use, and a frame for each table. -/
theorem Tabled.tables_eq (h : Tabled m)
    (booked : FramePool.Booked ∅ m.memory.frames.source (m.books tables)) :
    ↑tables = m.tables := by
  have hfits : m.memory.frames.source.Fits := h.tables.carries.valid.1
  -- Aligned addresses are told by their frames, so it is enough to compare frames.
  have haligned : (↑tables : Set PhysAddr) ⊆ {pa | pa.pageOffset = 0} := fun table htable =>
    (booked.placed_allocation hfits (Multiset.mem_add.2
      (Or.inr (Multiset.mem_map_of_mem Allocation.ofTable htable)))).aligned
  have haligned' : m.tables ⊆ {pa | pa.pageOffset = 0} := fun table htable =>
    pageOffset_of_mem_tablesUnder h.tables.aligned htable
  have hinjective : Set.InjOn Address.frameNumber {pa : PhysAddr | pa.pageOffset = 0} :=
    fun pa ha pa' ha' heq => Address.eq_of_frameNumber ha ha' heq
  have hapart : Disjoint (framesOf m.accounts) (framesOf (tables.val.map .ofTable)) :=
    Set.disjoint_left.2 fun n ⟨_, ha, hn⟩ hn' =>
      Set.disjoint_left.1 (booked.disjoint_framesOf ha) (Or.inr hn') hn
  have hheld : m.memory.frames.source.heldFrames = framesOf (m.books tables) := by
    rw [booked.held, Set.empty_union]
    rfl
  -- Both are the frames in use without those of the accounts.
  refine (hinjective.image_eq_image_iff haligned haligned').1 ?_
  calc Address.frameNumber '' (tables : Set PhysAddr)
    _ = framesOf (tables.val.map .ofTable) := (framesOf_map_ofTable tables.val).symm
    _ = m.memory.frames.source.heldFrames \ framesOf m.accounts := by
      rw [hheld, books, framesOf_add, Set.union_sdiff_left, hapart.symm.sdiff_eq_left]
    _ = Address.frameNumber '' m.tables := h.tables.held_eq

/-- Once a table is made it remains. -/
theorem Audited.tables_subset {m' : Machine (Recorded FramePool)} {events : List FrameEvent}
    (h : Audited ⟨ram, unused pages⟩ log m) (h' : Audited ⟨ram, unused pages⟩ (log ++ events) m')
    (haddr : (FramePool.ofPages pages).Addressable) (tabled : Tabled m) (tabled' : Tabled m') :
    m.tables ⊆ m'.tables := by
  obtain ⟨tables, htables⟩ := h.exists_tables haddr
  obtain ⟨tables', htables'⟩ := h'.exists_tables haddr
  rw [← tabled.tables_eq (h.booked_books haddr htables),
    ← tabled'.tables_eq (h'.booked_books haddr htables')]
  intro table hmem
  have hlater : Allocation.ofTable table ∈ tables'.val.map Allocation.ofTable := by
    rw [htables', tablesOf_append, ← htables]
    exact Multiset.mem_add.2 (Or.inl (Multiset.mem_map_of_mem _ hmem))
  obtain ⟨table', hmem', heq⟩ := Multiset.mem_map.1 hlater
  rwa [← show table' = table from congrArg Allocation.base heq]

/-- Along every run the tables are where the machine knows them to be. -/
theorem Run.tabled {P S : Type} [Platform P] [ImageSource S] [LawfulImageSource S]
    {trampoline : PhysAddr} {Admits : Machine (Recorded FramePool) → MachineRequest P S → Prop}
    (run : Run trampoline Admits (fresh ⟨ram, unused pages⟩) m)
    (hfits : (FramePool.ofPages pages).Fits) : Tabled m := by
  induction run with
  | start => exact tabled_fresh hfits (heldFrames_ofPages pages)
  | step run request admitted ih =>
    obtain ⟨log, haudited⟩ := run.audited fun log mem history =>
      history.unrecorded.grantsPages hfits.addressable
    exact ih.perform haudited.seated (haudited.booked_source hfits.addressable) trampoline request

end

/-- After every run from an unused pool the frames are accounted for, and whatever is asked
    next either leaves the stacks of a live task alone or, when it reaps the task, returns
    each of them once. A pool is smaller than the half of the address space; if it ends below
    2 ^ 48, as far as descriptors reach, the tables on the books are those of all spaces that
    were ever made, and none of them is ever lost. -/
theorem frames_accounted {P S : Type} [Platform P] [ImageSource S] [LawfulImageSource S]
    (trampoline : PhysAddr) (ram : Ram) {pages : Nat} (hpages : pages * pageSize < 2 ^ 63)
    {m : Machine (Recorded FramePool)}
    (run : Run trampoline (fun _ (_ : MachineRequest P S) => True) (fresh ⟨ram, unused pages⟩) m) :
    (∃ tables : Finset PhysAddr, Accounted m tables ∧
      ((FramePool.ofPages pages).Fits →
        ↑tables = m.tables ∧ ∀ h ∈ m.holdings, h.root ∈ m.roots)) ∧
    ∀ request : MachineRequest P S, ∃ calls,
      (m.perform trampoline request).memory.frames.calls = m.memory.frames.calls ++ calls ∧
      (∀ h ∈ m.holdings, StacksAfter request (m.perform trampoline request) calls h) ∧
      ((FramePool.ofPages pages).Fits → m.tables ⊆ (m.perform trampoline request).tables) := by
  have haddr : (FramePool.ofPages pages).Addressable := by
    have hbase : poolBase.toNat = 2 ^ 20 := by decide
    rw [FramePool.Addressable, FramePool.ofPages, List.length_replicate, hbase]
    omega
  have hgrants : ∀ log mem, History ⟨ram, unused pages⟩ log mem → GrantsPages mem.frames :=
    fun log mem history => history.unrecorded.grantsPages haddr
  obtain ⟨log, haudited⟩ := run.audited hgrants
  obtain ⟨tables, htables⟩ := haudited.exists_tables haddr
  refine ⟨⟨tables, haudited.accounted haddr htables, fun hfits => ?_⟩, fun request => ?_⟩
  · have htabled := run.tabled hfits
    exact ⟨htabled.tables_eq (haudited.booked_books haddr htables), htabled.rooted⟩
  · obtain ⟨outcome, hseated⟩ := perform_outcome trampoline haudited.seated
      (hgrants log _ haudited.history) request
    obtain ⟨calls, hcalls, hstacks⟩ := haudited.stacks haddr outcome
    refine ⟨calls, hcalls, hstacks, fun hfits => ?_⟩
    obtain ⟨events, hnext⟩ := haudited.outcome outcome hseated
    exact haudited.tables_subset hnext haddr (run.tabled hfits)
      ((run.step request trivial).tabled hfits)

/-- A machine whose second task could not be built at first, since the pool gave out; then it
    was built, terminated and reaped. -/
def reapedMachine : Machine (Recorded FramePool) :=
  let ask (request : Request ImageTable) : MachineRequest Recorder ImageTable :=
    .ask request Recorder.new
  [.supply pageSize, ask (.init (LinearWindow.kernel.toVirt ⟨poolBase⟩)), .limit 5,
    ask (.create ⟨kernelBase⟩ pageSize), .limit 20, ask (.create ⟨kernelBase⟩ pageSize),
    ask (.terminate ⟨1⟩), ask .reap].foldl (perform ⟨0x9000⟩) (fresh ⟨.zero, unused 32⟩)

theorem run_reapedMachine :
    Run ⟨0x9000⟩ (fun _ (_ : MachineRequest Recorder ImageTable) => True)
      (fresh ⟨.zero, unused 32⟩) reapedMachine := by
  rw [reapedMachine]
  simp only [List.foldl_cons, List.foldl_nil]
  exact ((((((((Run.start.step _ trivial).step _ trivial).step _ trivial).step _ trivial).step _
    trivial).step _ trivial).step _ trivial).step _ trivial)

/-- The stacks of the failed construction and of the reaped task came back; the tables of all
    three spaces are still there. -/
theorem frames_accounted_reap :
    32 * pageSize < 2 ^ 63 ∧ reapedMachine.holdings.map (·.id) = [⟨0⟩] ∧
      reapedMachine.roots.length = 3 ∧
      (returnsOf reapedMachine.memory.frames.calls).map (·.size) = [4096, 12288, 4096, 12288] ∧
      ∃ tables : Finset PhysAddr, Accounted reapedMachine tables ∧
        ↑tables = reapedMachine.tables ∧ tables.card = 17 := by
  -- The machine runs once for all that can be read off it.
  have hfacts : reapedMachine.holdings.map (·.id) = [⟨0⟩] ∧ reapedMachine.roots.length = 3 ∧
      (returnsOf reapedMachine.memory.frames.calls).map (·.size) = [4096, 12288, 4096, 12288] ∧
      (settle 0 reapedMachine.memory.frames.calls).map Multiset.card = some 20 ∧
      reapedMachine.accounts.card = 3 := by decide +kernel
  obtain ⟨hids, hroots, hreturns, hcalls, haccounts⟩ := hfacts
  obtain ⟨⟨tables, accounted, htables⟩, -⟩ :=
    frames_accounted ⟨0x9000⟩ .zero (by decide) run_reapedMachine
  rw [accounted.settled, Option.map_some, books, Multiset.card_add, Multiset.card_map,
    haccounts] at hcalls
  exact ⟨by decide, hids, hroots, hreturns, tables, accounted,
    (htables (FramePool.fits_ofPages (by decide))).1, Nat.add_left_cancel (Option.some.inj hcalls)⟩

end Machine

end TaskKernel
