/-
  TaskKernel.Proofs.Memory.HeapSession

  Sessions with a buddy allocator: reservations, one region, and then requests and
  returns in any order. In every session the free blocks and the blocks handed out
  tile the bytes that the region began with, so nothing is lost, handed out twice or
  taken from a reserved range. Addresses are plain numbers here, so sessions include
  all those in which no sum of addresses reaches the size of a machine word.
-/
import TaskKernel.Proofs.Memory.Carving

namespace TaskKernel

/-! ## Sessions -/

/-- `Prepared accepted a` says that reservations led from the empty allocator to `a`;
    `accepted` has the ranges for which there was room. -/
inductive Prepared : List (Nat × Nat) → BuddyAllocator → Prop
  | empty : Prepared [] .empty
  | accept {accepted : List (Nat × Nat)} {a : BuddyAllocator} (prepared : Prepared accepted a)
      (start stop : Nat) (room : (a.reserve start stop).1 = true) :
      Prepared ((start, stop) :: accepted) (a.reserve start stop).2
  | reject {accepted : List (Nat × Nat)} {a : BuddyAllocator} (prepared : Prepared accepted a)
      (start stop : Nat) (full : (a.reserve start stop).1 = false) :
      Prepared accepted (a.reserve start stop).2

/-- The block that was handed out at an address for a size. -/
def granted (entry : Nat × Nat) : Block := ⟨entry.1, orderFor entry.2⟩

/-- The blocks that a list of addresses and sizes stands for. -/
def grantedBlocks (live : List (Nat × Nat)) : List Block := live.map granted

/-- The list of live blocks after a request for `size` bytes. -/
def recordGrant (size : Nat) (live : List (Nat × Nat)) : Option Nat → List (Nat × Nat)
  | none => live
  | some addr => (addr, size) :: live

/-- `Session start a live` says that requests and returns led from the allocator `start`,
    which has handed out nothing, to `a`; `live` has the address of each block handed out
    and not returned, with the size asked for. Only live blocks are returned. -/
inductive Session (start : BuddyAllocator) : BuddyAllocator → List (Nat × Nat) → Prop
  | start : Session start start []
  | allocate {a : BuddyAllocator} {live : List (Nat × Nat)} (session : Session start a live)
      (size : Nat) :
      Session start (a.allocate size).2 (recordGrant size live (a.allocate size).1)
  | deallocate {a : BuddyAllocator} {live : List (Nat × Nat)} (session : Session start a live)
      (addr size : Nat) (owned : (addr, size) ∈ live) :
      Session start (a.deallocate addr size) (live.erase (addr, size))

/-! ## Reservations -/

/-- A range without bytes is accepted and forgotten, any other is remembered while there is
    room for it. -/
theorem BuddyAllocator.reserve_cases (a : BuddyAllocator) (start stop : Nat) :
    (stop ≤ start ∧ a.reserve start stop = (true, a)) ∨
    (start < stop ∧
      a.reserve start stop = (true, { a with reserved := a.reserved ++ [(start, stop)] })) ∨
    a.reserve start stop = (false, a) := by
  rw [reserve]
  split
  · next hempty => exact Or.inl ⟨hempty, rfl⟩
  · next hbytes =>
    split
    · exact Or.inr (Or.inl ⟨Nat.lt_of_not_le hbytes, rfl⟩)
    · exact Or.inr (Or.inr rfl)

/-- The allocator remembers the ranges with bytes, and nothing else has happened to it. -/
structure Prepared.Facts (accepted : List (Nat × Nat)) (a : BuddyAllocator) : Prop where
  reserved_of_mem : ∀ r ∈ accepted, r.1 < r.2 → r ∈ a.reserved
  nonempty : ∀ r ∈ a.reserved, r.1 < r.2
  allocated_eq : a.allocated = 0

theorem Prepared.facts {accepted : List (Nat × Nat)} {a : BuddyAllocator}
    (h : Prepared accepted a) : Facts accepted a := by
  induction h with
  | empty =>
    exact ⟨fun r hr => absurd hr List.not_mem_nil, fun r hr => absurd hr List.not_mem_nil, rfl⟩
  | @accept accepted a prepared start stop room ih =>
    rcases a.reserve_cases start stop with ⟨hempty, heq⟩ | ⟨hbytes, heq⟩ | heq
    · rw [heq]
      refine ⟨fun r hr hlt => ?_, ih.nonempty, ih.allocated_eq⟩
      rcases List.mem_cons.1 hr with rfl | hr
      · exact absurd hlt (Nat.not_lt.2 hempty)
      · exact ih.reserved_of_mem r hr hlt
    · rw [heq]
      refine ⟨fun r hr hlt => ?_, fun r hr => ?_, ih.allocated_eq⟩
      · rcases List.mem_cons.1 hr with rfl | hr
        · exact List.mem_append_right _ (List.mem_singleton.2 rfl)
        · exact List.mem_append_left _ (ih.reserved_of_mem r hr hlt)
      · rcases List.mem_append.1 hr with hr | hr
        · exact ih.nonempty r hr
        · cases List.mem_singleton.1 hr
          exact hbytes
    · rw [heq] at room
      cases room
  | @reject accepted a prepared start stop full ih =>
    rcases a.reserve_cases start stop with ⟨-, heq⟩ | ⟨-, heq⟩ | heq
    · rw [heq]
      exact ih
    · rw [heq] at full
      cases full
    · rw [heq]
      exact ih

/-! ## One request -/

theorem smallestFit_some {order : Nat} {free : List Block} {b : Block}
    (h : smallestFit order free = some b) : b ∈ free ∧ order ≤ b.order := by
  induction free generalizing b with
  | nil => cases h
  | cons c rest ih =>
    rw [smallestFit] at h
    split at h
    · obtain ⟨hmem, hle⟩ := ih h
      exact ⟨List.mem_cons_of_mem _ hmem, hle⟩
    · next hfits =>
      cases hrest : smallestFit order rest with
      | none =>
        rw [hrest] at h
        cases h
        exact ⟨List.mem_cons_self, Nat.le_of_not_lt hfits⟩
      | some d =>
        rw [hrest] at h
        dsimp only at h
        split at h
        · cases h
          obtain ⟨hmem, hle⟩ := ih hrest
          exact ⟨List.mem_cons_of_mem _ hmem, hle⟩
        · cases h
          exact ⟨List.mem_cons_self, Nat.le_of_not_lt hfits⟩

theorem smallestFit_eq_none_iff {order : Nat} {free : List Block} :
    smallestFit order free = none ↔ ∀ b ∈ free, b.order < order := by
  induction free with
  | nil => simp [smallestFit]
  | cons c rest ih =>
    rw [smallestFit, List.forall_mem_cons]
    split
    · next hsmall => simp [ih, hsmall]
    · next hfits =>
      constructor
      · intro h
        cases hrest : smallestFit order rest with
        | none =>
          rw [hrest] at h
          cases h
        | some d =>
          rw [hrest] at h
          dsimp only at h
          split at h <;> cases h
      · exact fun h => absurd h.1 hfits

/-- A granted request takes one block from the free ones, splits it and keeps the lowest
    part; a request that is not granted changes nothing. -/
theorem BuddyAllocator.allocate_cases (a : BuddyAllocator) (size : Nat) :
    (a.allocate size = (none, a) ∧
      (blockSize maxOrder < size ∨ ∀ b ∈ a.free, b.order < orderFor size)) ∨
    ∃ addr times, size ≤ blockSize maxOrder ∧ ⟨addr, orderFor size + times⟩ ∈ a.free ∧
      a.allocate size = (some addr, { a with
        free := Block.upperHalves addr (orderFor size) times ++
          a.free.erase ⟨addr, orderFor size + times⟩
        allocated := a.allocated + blockSize (orderFor size) }) := by
  rw [allocate]
  split
  · next hlarge => exact Or.inl ⟨rfl, Or.inl hlarge⟩
  · next hsize =>
    dsimp only
    cases hfit : smallestFit (orderFor size) a.free with
    | none => exact Or.inl ⟨rfl, Or.inr (smallestFit_eq_none_iff.1 hfit)⟩
    | some b =>
      right
      obtain ⟨hmem, hle⟩ := smallestFit_some hfit
      have hb : b = ⟨b.addr, orderFor size + (b.order - orderFor size)⟩ := by
        rw [Nat.add_sub_cancel' hle]
      refine ⟨b.addr, b.order - orderFor size, Nat.le_of_not_lt hsize, ?_, ?_⟩
      · rw [← hb]
        exact hmem
      · rw [← hb]

/-! ## Tilings through a session -/

/-- Freeing a block, with all the joins it sets off, covers what it covered. -/
theorem Tiling.insertJoined {free live : List Block} {b : Block} {region : Set Nat}
    (h : Tiling (b :: (free ++ live)) region) :
    Tiling (TaskKernel.insertJoined free b ++ live) region := by
  fun_induction TaskKernel.insertJoined free b with
  | case1 free b hjoin ih =>
    obtain ⟨hlt, hfree⟩ := hjoin
    -- One join: the buddy leaves the free list and the two go on as one block.
    have hperm : (free ++ live).Perm (b.buddy :: (free.erase b.buddy ++ live)) :=
      (List.perm_cons_erase hfree).append_right live
    exact ih ((h.perm (hperm.cons b)).join hlt)
  | case2 free b hstop => exact h

theorem Tiling.allocate {free live : List Block} {addr order times : Nat} {region : Set Nat}
    (h : Tiling (free ++ live) region) (hfree : ⟨addr, order + times⟩ ∈ free) :
    Tiling ((Block.upperHalves addr order times ++ free.erase ⟨addr, order + times⟩) ++
      (⟨addr, order⟩ :: live)) region := by
  have hperm : (free ++ live).Perm
      (⟨addr, order + times⟩ :: (free.erase ⟨addr, order + times⟩ ++ live)) :=
    (List.perm_cons_erase hfree).append_right live
  have hsplit := (h.perm hperm).split times
  rw [← List.append_assoc] at hsplit
  exact hsplit.perm List.perm_middle.symm

/-- What a session keeps: free and live blocks tile the region, and the count is right. -/
structure Session.Sound (region : Set Nat) (a : BuddyAllocator) (live : List (Nat × Nat)) :
    Prop where
  tiling : Tiling (a.free ++ grantedBlocks live) region
  size_le : ∀ entry ∈ live, entry.2 ≤ (granted entry).size
  allocated_eq : a.allocated = ((grantedBlocks live).map Block.size).sum

theorem perm_grantedBlocks_erase {live : List (Nat × Nat)} {entry : Nat × Nat}
    (h : entry ∈ live) :
    (grantedBlocks live).Perm (granted entry :: grantedBlocks (live.erase entry)) :=
  (List.perm_cons_erase h).map granted

namespace Session.Sound

variable {region : Set Nat} {a : BuddyAllocator} {live : List (Nat × Nat)}

theorem allocate (h : Sound region a live) (size : Nat) :
    Sound region (a.allocate size).2 (recordGrant size live (a.allocate size).1) := by
  rcases a.allocate_cases size with ⟨heq, -⟩ | ⟨addr, times, hsize, hfree, heq⟩
  · rw [heq]
    exact h
  · rw [heq]
    refine ⟨h.tiling.allocate hfree, fun entry hentry => ?_, ?_⟩
    · rcases List.mem_cons.1 hentry with rfl | hentry
      · exact le_blockSize_orderFor hsize
      · exact h.size_le entry hentry
    · show a.allocated + blockSize (orderFor size) =
        blockSize (orderFor size) + ((grantedBlocks live).map Block.size).sum
      rw [h.allocated_eq, Nat.add_comm]

/-- The count of allocated bytes covers every live block. -/
theorem granted_size_le (h : Sound region a live) {entry : Nat × Nat} (hentry : entry ∈ live) :
    (granted entry).size ≤ a.allocated := by
  have hperm := (perm_grantedBlocks_erase hentry).map Block.size
  rw [h.allocated_eq, hperm.sum_nat, List.map_cons, List.sum_cons]
  exact Nat.le_add_right _ _

theorem deallocate (h : Sound region a live) {addr size : Nat} (hentry : (addr, size) ∈ live) :
    Sound region (a.deallocate addr size) (live.erase (addr, size)) := by
  have hperm := perm_grantedBlocks_erase hentry
  refine ⟨?_, fun entry hmem => h.size_le entry (List.mem_of_mem_erase hmem), ?_⟩
  · apply Tiling.insertJoined
    exact h.tiling.perm ((hperm.append_left a.free).trans List.perm_middle)
  · show a.allocated - blockSize (orderFor size) = _
    rw [h.allocated_eq, (hperm.map Block.size).sum_nat, List.map_cons, List.sum_cons]
    exact Nat.add_sub_cancel_left ..

end Session.Sound

theorem Session.sound {start a : BuddyAllocator} {live : List (Nat × Nat)}
    (hstart : Tiling start.free (covered start.free)) (hallocated : start.allocated = 0)
    (session : Session start a live) : Sound (covered start.free) a live := by
  induction session with
  | start =>
    refine ⟨?_, fun entry hentry => absurd hentry List.not_mem_nil, hallocated⟩
    rw [grantedBlocks, List.map_nil, List.append_nil]
    exact hstart
  | allocate session size ih => exact ih.allocate size
  | deallocate session addr size owned ih => exact ih.deallocate owned

/-! ## Safety -/

theorem carving_init (a : BuddyAllocator) (base size : Nat) :
    Carving a.reserved (base + size) (alignUp base minBlockSize)
      (carve a.reserved (base + size) (alignUp base minBlockSize)) :=
  carving_carve (minBlockSize_dvd_alignUp base)

theorem init_free_perm (a : BuddyAllocator) (base size : Nat) :
    (carve a.reserved (base + size) (alignUp base minBlockSize)).Perm (a.init base size).free :=
  (List.reverse_perm _).symm

theorem tiling_init (a : BuddyAllocator) (base size : Nat) :
    Tiling (a.init base size).free (covered (a.init base size).free) := by
  have hperm := init_free_perm a base size
  rw [← covered_perm hperm]
  exact (carving_init a base size).tiling.perm hperm

/-- All that a region begins with lies inside it and in no accepted reservation. -/
theorem covered_init_subset {accepted : List (Nat × Nat)} {a : BuddyAllocator}
    (prepared : Prepared accepted a) (base size : Nat) :
    covered (a.init base size).free ⊆ Set.Ico base (base + size) ∧
      ∀ r ∈ accepted, Disjoint (covered (a.init base size).free) (Set.Ico r.1 r.2) := by
  have carving := carving_init a base size
  rw [← covered_perm (init_free_perm a base size)]
  refine ⟨fun x hx => ?_, fun r hr => ?_⟩
  · obtain ⟨hle, hlt⟩ := carving.covered_subset hx
    exact ⟨Nat.le_trans (le_alignUp base) hle, hlt⟩
  · by_cases hbytes : r.1 < r.2
    · exact carving.disjoint_reserved (prepared.facts.reserved_of_mem r hr hbytes)
    · rw [Set.Ico_eq_empty hbytes]
      exact Set.disjoint_empty _

/-- In every session the free and the live blocks are aligned, do not overlap, and cover
    exactly the bytes that the region began with: bytes of the region outside all accepted
    reservations. A live block has the size asked for, and the allocated count is the sum of
    the live blocks, so no return takes it below zero. -/
theorem heap_session_safe {accepted : List (Nat × Nat)} {a : BuddyAllocator}
    (prepared : Prepared accepted a) (base size : Nat) {s : BuddyAllocator}
    {live : List (Nat × Nat)} (session : Session (a.init base size) s live) :
    Tiling (s.free ++ grantedBlocks live) (covered (a.init base size).free) ∧
    (∀ b ∈ s.free ++ grantedBlocks live, b.bytes ⊆ Set.Ico base (base + size) ∧
      ∀ r ∈ accepted, Disjoint b.bytes (Set.Ico r.1 r.2)) ∧
    (∀ entry ∈ live, entry.2 ≤ (granted entry).size) ∧
    s.allocated = ((grantedBlocks live).map Block.size).sum ∧
    ∀ entry ∈ live, (granted entry).size ≤ s.allocated := by
  have sound := session.sound (tiling_init a base size) prepared.facts.allocated_eq
  obtain ⟨hinside, hreserved⟩ := covered_init_subset prepared base size
  refine ⟨sound.tiling, fun b hb => ?_, sound.size_le, sound.allocated_eq,
    fun entry hentry => sound.granted_size_le hentry⟩
  have hbytes : b.bytes ⊆ covered (a.init base size).free := by
    rw [← sound.tiling.covers]
    exact bytes_subset_covered hb
  exact ⟨hbytes.trans hinside, fun r hr => (hreserved r hr).mono_left hbytes⟩

/-- An allocator that must keep out of one cache line. -/
def holedHeap : BuddyAllocator := (BuddyAllocator.empty.reserve 0x1040 0x1080).2

theorem holedHeap_prepared : Prepared [(0x1040, 0x1080)] holedHeap :=
  Prepared.empty.accept 0x1040 0x1080 (by decide)

theorem holedHeap_allocate :
    (holedHeap.init 0x1000 0x200).allocate 20 =
      (some 0x1000, ⟨[⟨0x1020, 1⟩, ⟨0x1100, 4⟩, ⟨0x1080, 3⟩], [(0x1040, 0x1080)], 32⟩) := by
  decide +kernel

/-- A request that splits the block below the hole. -/
theorem heap_session_safe_hole :
    Tiling [⟨0x1020, 1⟩, ⟨0x1100, 4⟩, ⟨0x1080, 3⟩, ⟨0x1000, 1⟩]
      (covered (holedHeap.init 0x1000 0x200).free) ∧
    ∀ b ∈ ([⟨0x1020, 1⟩, ⟨0x1100, 4⟩, ⟨0x1080, 3⟩, ⟨0x1000, 1⟩] : List Block),
      b.bytes ⊆ Set.Ico 0x1000 (0x1000 + 0x200) ∧ Disjoint b.bytes (Set.Ico 0x1040 0x1080) := by
  have session : Session (holedHeap.init 0x1000 0x200)
      ((holedHeap.init 0x1000 0x200).allocate 20).2 _ := Session.start.allocate 20
  rw [holedHeap_allocate] at session
  obtain ⟨tiling, hinside, -⟩ := heap_session_safe holedHeap_prepared 0x1000 0x200 session
  refine ⟨tiling, fun b hb => ?_⟩
  obtain ⟨hregion, hreserved⟩ := hinside b hb
  exact ⟨hregion, hreserved _ (List.mem_singleton.2 rfl)⟩

end TaskKernel
