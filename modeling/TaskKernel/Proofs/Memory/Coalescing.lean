/-
  TaskKernel.Proofs.Memory.Coalescing

  Freed blocks are always joined as far as they can be: below the largest order no two
  free blocks are buddies. A set of bytes has only one tiling of that kind, since each
  of its blocks is the largest one that fits where it stands. So the free blocks depend
  on the live blocks alone and not on how the session came there, and a request fails
  only when no aligned block of its size is left.
-/
import TaskKernel.Proofs.Memory.HeapSession

namespace TaskKernel

/-- Below the largest order no block and its buddy are both in the list. -/
def NoFreeBuddies (free : List Block) : Prop :=
  ∀ b ∈ free, b.order < maxOrder → b.buddy ∉ free

theorem NoFreeBuddies.perm {free free' : List Block} (h : NoFreeBuddies free)
    (hperm : free.Perm free') : NoFreeBuddies free' := by
  intro b hb hlt hbuddy
  exact h b (hperm.mem_iff.2 hb) hlt (hperm.mem_iff.2 hbuddy)

theorem NoFreeBuddies.erase {free : List Block} (h : NoFreeBuddies free) (c : Block) :
    NoFreeBuddies (free.erase c) := by
  intro b hb hlt hbuddy
  exact h b (List.mem_of_mem_erase hb) hlt (List.mem_of_mem_erase hbuddy)

/-! ## The first tiling -/

/-- Where both halves of an aligned block are usable, so is the block: a range that met it
    and neither half would have to be empty. -/
theorem Block.isUsable_double {reserved : List (Nat × Nat)} {stop addr order : Nat}
    (hnonempty : ∀ r ∈ reserved, r.1 < r.2) (haligned : (⟨addr, order + 1⟩ : Block).Aligned)
    (hlower : (⟨addr, order⟩ : Block).isUsable reserved stop = true)
    (hupper : (⟨addr + blockSize order, order⟩ : Block).isUsable reserved stop = true) :
    (⟨addr, order + 1⟩ : Block).isUsable reserved stop = true := by
  obtain ⟨-, -, hlow⟩ := Block.isUsable_iff.1 hlower
  obtain ⟨-, hstop, hhigh⟩ := Block.isUsable_iff.1 hupper
  simp only [Block.size] at hlow hstop hhigh
  refine Block.isUsable_iff.2 ⟨haligned, ?_, fun r hr hmeet => ?_⟩
  · simp only [Block.size, blockSize_succ]
    omega
  · have hbytes := hnonempty r hr
    have hmisslow := hlow r hr
    have hmisshigh := hhigh r hr
    simp only [Block.size, blockSize_succ] at hmeet
    omega

theorem Carving.noFreeBuddies {reserved : List (Nat × Nat)} {stop addr : Nat}
    {blocks : List Block} (h : Carving reserved stop addr blocks)
    (hnonempty : ∀ r ∈ reserved, r.1 < r.2) : NoFreeBuddies blocks := by
  intro b hb hlt hbuddy
  have husable := (h.maximal b hb).usable
  have husable' := (h.maximal b.buddy hbuddy).usable
  rcases Block.half_cases (Block.isUsable_iff.1 husable).1 with hlow | ⟨low, heq, hlow⟩
  · rw [Block.buddy_lower hlow] at husable'
    have hdouble := Block.isUsable_double hnonempty hlow husable husable'
    rw [(h.maximal b hb).not_double hlt] at hdouble
    cases hdouble
  · have hbuddy' : b.buddy = ⟨low, b.order⟩ := by rw [heq, Block.buddy_upper hlow]
    rw [hbuddy'] at husable' hbuddy
    rw [heq] at husable
    have hdouble := Block.isUsable_double hnonempty hlow husable' husable
    rw [(h.maximal _ hbuddy).not_double hlt] at hdouble
    cases hdouble

/-! ## Requests and returns -/

/-- The upper halves of a split are the upper halves of aligned blocks at its address. -/
theorem Block.mem_upperHalves {addr order times : Nat} {b : Block}
    (h : b ∈ Block.upperHalves addr order times)
    (haligned : (⟨addr, order + times⟩ : Block).Aligned) :
    b.Aligned ∧ b.buddy = ⟨addr, b.order⟩ := by
  obtain ⟨i, hi, rfl⟩ := List.mem_map.1 h
  rw [List.mem_range] at hi
  have hle : order + i + 1 ≤ order + times := by omega
  have hwhole : (⟨addr, order + i + 1⟩ : Block).Aligned :=
    Nat.dvd_trans (blockSize_dvd hle) haligned
  exact ⟨hwhole.upper, Block.buddy_upper hwhole⟩

/-- A split frees no buddies: the buddy of each half holds the block that is handed out. -/
theorem NoFreeBuddies.allocate {free live : List Block} {addr order times : Nat}
    {region : Set Nat} (hfree : NoFreeBuddies free) (tiling : Tiling (free ++ live) region)
    (hmem : ⟨addr, order + times⟩ ∈ free) :
    NoFreeBuddies
      (Block.upperHalves addr order times ++ free.erase ⟨addr, order + times⟩) := by
  have haligned : (⟨addr, order + times⟩ : Block).Aligned :=
    tiling.aligned _ (List.mem_append_left _ hmem)
  have tiling' := tiling.allocate hmem
  -- The byte at `addr` is handed out, so no free block may hold it.
  have houtside (k : Nat) :
      (⟨addr, k⟩ : Block) ∉
        Block.upperHalves addr order times ++ free.erase ⟨addr, order + times⟩ := by
    intro hk
    have hheld : addr ∈ covered (⟨addr, order⟩ :: live) :=
      bytes_subset_covered List.mem_cons_self (Block.addr_mem_bytes _)
    have hfree : addr ∈ covered
        (Block.upperHalves addr order times ++ free.erase ⟨addr, order + times⟩) :=
      bytes_subset_covered hk (Block.addr_mem_bytes ⟨addr, k⟩)
    exact Set.disjoint_left.1 tiling'.disjoint_append hfree hheld
  intro b hb hlt hbuddy
  rcases List.mem_append.1 hb with hhalf | hold
  · rw [(Block.mem_upperHalves hhalf haligned).2] at hbuddy
    exact houtside _ hbuddy
  · rcases List.mem_append.1 hbuddy with hhalf' | hold'
    · have hbaligned := tiling.aligned b (List.mem_append_left _ (List.mem_of_mem_erase hold))
      have hbuddy' := (Block.mem_upperHalves hhalf' haligned).2
      rw [Block.buddy_buddy hbaligned] at hbuddy'
      rw [hbuddy'] at hb
      exact houtside _ hb
    · exact hfree.erase _ b hold hlt hold'

/-- Freeing a block joins it with its buddy for as long as the buddy is free, and stops
    where it is not. -/
theorem NoFreeBuddies.insertJoined {free : List Block} {b : Block} (hfree : NoFreeBuddies free)
    (haligned : ∀ c ∈ free, c.Aligned) (hb : b.Aligned) :
    NoFreeBuddies (TaskKernel.insertJoined free b) := by
  fun_induction TaskKernel.insertJoined free b with
  | case1 free b hjoin ih =>
    exact ih (hfree.erase _) (fun c hc => haligned c (List.mem_of_mem_erase hc))
      (Block.aligned_joined hb)
  | case2 free b hstop =>
    intro c hc hlt hbuddy
    rcases List.mem_cons.1 hc with rfl | hc
    · rcases List.mem_cons.1 hbuddy with heq | hbuddy
      · exact Block.buddy_ne hb heq
      · exact hstop ⟨hlt, hbuddy⟩
    · rcases List.mem_cons.1 hbuddy with heq | hbuddy
      · have hback : b.buddy = c := by rw [← heq, Block.buddy_buddy (haligned c hc)]
        have hlt' : b.order < maxOrder := by
          rw [← heq, Block.buddy_order]
          exact hlt
        exact hstop ⟨hlt', hback ▸ hc⟩
      · exact hfree c hc hlt hbuddy

theorem Session.noFreeBuddies {start a : BuddyAllocator} {live : List (Nat × Nat)}
    (hstart : Tiling start.free (covered start.free)) (hallocated : start.allocated = 0)
    (hfree : NoFreeBuddies start.free) (session : Session start a live) :
    NoFreeBuddies a.free := by
  induction session with
  | start => exact hfree
  | @allocate a live session size ih =>
    have sound := session.sound hstart hallocated
    rcases a.allocate_cases size with ⟨heq, -⟩ | ⟨addr, times, -, hmem, heq⟩
    · rw [heq]
      exact ih
    · rw [heq]
      exact ih.allocate sound.tiling hmem
  | @deallocate a live session addr size owned ih =>
    have sound := session.sound hstart hallocated
    refine ih.insertJoined (fun c hc => sound.tiling.aligned c (List.mem_append_left _ hc)) ?_
    exact sound.tiling.aligned _ (List.mem_append_right _ (List.mem_map_of_mem owned))

/-! ## Only one such tiling -/

/-- An aligned block around a half of another is that half or reaches over the whole. -/
theorem Block.eq_or_subset_of_half {b : Block} {addr half order : Nat} (hb : b.Aligned)
    (hwhole : (⟨addr, order + 1⟩ : Block).Aligned) (hhalf : (⟨half, order⟩ : Block).Aligned)
    (hin : (⟨half, order⟩ : Block).bytes ⊆ (⟨addr, order + 1⟩ : Block).bytes)
    (hsub : (⟨half, order⟩ : Block).bytes ⊆ b.bytes) :
    ⟨half, order⟩ = b ∨ (⟨addr, order + 1⟩ : Block).bytes ⊆ b.bytes := by
  have hmem := Block.addr_mem_bytes ⟨half, order⟩
  by_cases hlarge : order + 1 ≤ b.order
  · right
    exact Block.bytes_subset_of_mem hb hwhole hlarge (hsub hmem) (hin hmem)
  · left
    have hsmall : b.order ≤ order := by omega
    have hinside := Block.bytes_subset_of_mem hhalf hb hsmall hmem (hsub hmem)
    exact Block.eq_of_bytes_eq (Set.Subset.antisymm hsub hinside)

/-- An aligned block that is free byte for byte lies inside one free block. -/
theorem exists_free_of_subset {free : List Block} {region : Set Nat} (tiling : Tiling free region)
    (hfree : NoFreeBuddies free) {addr order : Nat} (haligned : (⟨addr, order⟩ : Block).Aligned)
    (horder : order ≤ maxOrder) (hsub : (⟨addr, order⟩ : Block).bytes ⊆ region) :
    ∃ b ∈ free, (⟨addr, order⟩ : Block).bytes ⊆ b.bytes := by
  -- Both halves lie inside free blocks. If these were the halves themselves, two buddies
  -- would be free, so one of them reaches over the whole block.
  induction order generalizing addr with
  | zero =>
    have hcovered : addr ∈ covered free := by
      rw [tiling.covers]
      exact hsub (Block.addr_mem_bytes ⟨addr, 0⟩)
    obtain ⟨b, hb, haddr⟩ := hcovered
    exact ⟨b, hb, Block.bytes_subset_of_mem (tiling.aligned b hb) haligned (Nat.zero_le _) haddr
      (Block.addr_mem_bytes ⟨addr, 0⟩)⟩
  | succ order ih =>
    have hhalves := Block.bytes_eq_halves addr order
    have hlower := hhalves ▸ Set.subset_union_left
    have hupper := hhalves ▸ Set.subset_union_right
    have horder' := Nat.le_of_succ_le horder
    obtain ⟨b, hb, hbsub⟩ := ih haligned.lower horder' (hlower.trans hsub)
    obtain ⟨c, hc, hcsub⟩ := ih haligned.upper horder' (hupper.trans hsub)
    rcases Block.eq_or_subset_of_half (tiling.aligned b hb) haligned haligned.lower hlower hbsub with
      rfl | hwhole
    · rcases Block.eq_or_subset_of_half (tiling.aligned c hc) haligned haligned.upper hupper
          hcsub with rfl | hwhole
      · have hbuddy := hfree _ hb horder
        rw [Block.buddy_lower haligned] at hbuddy
        exact absurd hc hbuddy
      · exact ⟨c, hc, hwhole⟩
    · exact ⟨b, hb, hwhole⟩

/-- Free blocks without buddies are known by the bytes they cover. -/
theorem free_subset_of_tilings {free free' : List Block} {region : Set Nat}
    (tiling : Tiling free region) (hfree : NoFreeBuddies free)
    (tiling' : Tiling free' region) (hfree' : NoFreeBuddies free') {b : Block} (hb : b ∈ free) :
    b ∈ free' := by
  have hsub : b.bytes ⊆ region := by
    rw [← tiling.covers]
    exact bytes_subset_covered hb
  obtain ⟨c, hc, hbc⟩ : ∃ c ∈ free', b.bytes ⊆ c.bytes :=
    exists_free_of_subset tiling' hfree' (tiling.aligned b hb) (tiling.order_le b hb) hsub
  have hsub' : c.bytes ⊆ region := by
    rw [← tiling'.covers]
    exact bytes_subset_covered hc
  obtain ⟨d, hd, hcd⟩ : ∃ d ∈ free, c.bytes ⊆ d.bytes :=
    exists_free_of_subset tiling hfree (tiling'.aligned c hc) (tiling'.order_le c hc) hsub'
  have hbd : b = d := tiling.eq_of_mem hb hd b.addr_mem_bytes (hcd (hbc b.addr_mem_bytes))
  rw [← hbd] at hcd
  rw [Block.eq_of_bytes_eq (Set.Subset.antisymm hbc hcd)]
  exact hc

/-! ## Whole sessions -/

/-- The smallest size of block that holds `size` bytes. -/
def Block.LeastFor (size : Nat) (b : Block) : Prop :=
  size ≤ b.size ∧ ∀ order, size ≤ blockSize order → b.order ≤ order

theorem Block.leastFor_iff {size : Nat} (hsize : size ≤ blockSize maxOrder) (b : Block) :
    b.LeastFor size ↔ b.order = orderFor size := by
  constructor
  · rintro ⟨hholds, hleast⟩
    exact Nat.le_antisymm (hleast _ (le_blockSize_orderFor hsize)) (orderFor_le_of_le hholds)
  · intro horder
    refine ⟨?_, fun order hholds => horder ▸ orderFor_le_of_le hholds⟩
    rw [Block.size, horder]
    exact le_blockSize_orderFor hsize

/-- Returns blocks one after the other. -/
def BuddyAllocator.deallocateAll (a : BuddyAllocator) (entries : List (Nat × Nat)) :
    BuddyAllocator :=
  entries.foldl (fun a entry => a.deallocate entry.1 entry.2) a

theorem Session.deallocateAll {start a : BuddyAllocator} {live entries : List (Nat × Nat)}
    (session : Session start a live) (hperm : entries.Perm live) :
    Session start (a.deallocateAll entries) [] := by
  induction entries generalizing a live with
  | nil =>
    rw [← hperm.nil_eq] at session
    exact session
  | cons entry entries ih =>
    have hmem : entry ∈ live := hperm.mem_iff.1 List.mem_cons_self
    have hrest : entries.Perm (live.erase entry) :=
      List.Perm.cons_inv (hperm.trans (List.perm_cons_erase hmem))
    exact ih (session.deallocate entry.1 entry.2 hmem) hrest

theorem BuddyAllocator.isSome_allocate_iff (a : BuddyAllocator) {size : Nat}
    (hsize : size ≤ blockSize maxOrder) :
    (a.allocate size).1.isSome = true ↔ ∃ b ∈ a.free, orderFor size ≤ b.order := by
  rcases a.allocate_cases size with ⟨heq, hlarge | hnone⟩ | ⟨addr, times, -, hmem, heq⟩
  · exact absurd hsize (Nat.not_le.2 hlarge)
  · rw [heq]
    constructor
    · intro h
      cases h
    · rintro ⟨b, hb, hle⟩
      exact absurd hle (Nat.not_le.2 (hnone b hb))
  · rw [heq]
    exact ⟨fun _ => ⟨_, hmem, Nat.le_add_right _ _⟩, fun _ => rfl⟩

/-- A request is granted exactly when an aligned block of its size is free byte for byte. -/
theorem Tiling.isSome_allocate_iff {a : BuddyAllocator} {region : Set Nat}
    (tiling : Tiling a.free region) (hfree : NoFreeBuddies a.free) {size : Nat}
    (hsize : size ≤ blockSize maxOrder) :
    (a.allocate size).1.isSome = true ↔
      ∃ b : Block, b.Aligned ∧ b.LeastFor size ∧ b.bytes ⊆ region := by
  rw [a.isSome_allocate_iff hsize]
  constructor
  · rintro ⟨b, hb, hle⟩
    have haligned := tiling.aligned b hb
    have hpart : (⟨b.addr, orderFor size⟩ : Block).Aligned :=
      Nat.dvd_trans (blockSize_dvd hle) haligned
    refine ⟨⟨b.addr, orderFor size⟩, hpart, (Block.leastFor_iff hsize _).2 rfl, ?_⟩
    rw [← tiling.covers]
    exact (Block.bytes_subset_of_mem haligned hpart hle b.addr_mem_bytes
      (Block.addr_mem_bytes ⟨b.addr, orderFor size⟩)).trans (bytes_subset_covered hb)
  · rintro ⟨b, haligned, hleast, hsub⟩
    have horder := (Block.leastFor_iff hsize b).1 hleast
    obtain ⟨c, hc, hbc⟩ : ∃ c ∈ a.free, b.bytes ⊆ c.bytes :=
      exists_free_of_subset tiling hfree haligned (horder ▸ orderFor_le size) hsub
    refine ⟨c, hc, ?_⟩
    by_contra hlt
    -- A smaller block cannot be around a larger one.
    have hle : c.order ≤ b.order := by omega
    have hcb := Block.bytes_subset_of_mem haligned (tiling.aligned c hc) hle b.addr_mem_bytes
      (hbc b.addr_mem_bytes)
    rw [Block.eq_of_bytes_eq (Set.Subset.antisymm hbc hcb)] at horder
    omega

theorem noFreeBuddies_init {accepted : List (Nat × Nat)} {a : BuddyAllocator}
    (prepared : Prepared accepted a) (base size : Nat) :
    NoFreeBuddies (a.init base size).free :=
  ((carving_init a base size).noFreeBuddies prepared.facts.nonempty).perm
    (init_free_perm a base size)

section

variable {accepted : List (Nat × Nat)} {a s s' : BuddyAllocator} {base size : Nat}
  {live live' : List (Nat × Nat)}

theorem Session.noFreeBuddies_of_init (prepared : Prepared accepted a)
    (session : Session (a.init base size) s live) : NoFreeBuddies s.free :=
  session.noFreeBuddies (tiling_init a base size) prepared.facts.allocated_eq
    (noFreeBuddies_init prepared base size)

/-- The free blocks tile what the live blocks leave of the first bytes. -/
theorem Session.tiling_free (prepared : Prepared accepted a)
    (session : Session (a.init base size) s live) :
    Tiling s.free (covered (a.init base size).free \ covered (grantedBlocks live)) := by
  have sound := session.sound (tiling_init a base size) prepared.facts.allocated_eq
  rw [← sound.tiling.covered_eq_diff]
  exact sound.tiling.left

/-- Sessions with the same live blocks have the same free ones. -/
theorem Session.mem_free_iff (prepared : Prepared accepted a)
    (session : Session (a.init base size) s live)
    (session' : Session (a.init base size) s' live')
    (hlive : ∀ b, b ∈ grantedBlocks live ↔ b ∈ grantedBlocks live') (b : Block) :
    b ∈ s.free ↔ b ∈ s'.free := by
  have hcovered : covered (grantedBlocks live) = covered (grantedBlocks live') := by
    ext x
    simp only [mem_covered, hlive]
  have hnone := session.noFreeBuddies_of_init prepared
  have hnone' := session'.noFreeBuddies_of_init prepared
  have tiling := session.tiling_free prepared
  have tiling' := session'.tiling_free prepared
  rw [← hcovered] at tiling'
  constructor
  · exact free_subset_of_tilings tiling hnone tiling' hnone'
  · exact free_subset_of_tilings tiling' hnone' tiling hnone

end

/-- In every session no two buddies below the largest order are free, and the free blocks
    depend on the live blocks alone: sessions with the same live blocks have the same free
    ones, and returning all live blocks in any order gives back those of the beginning. A
    request of up to 16 MiB is granted exactly when some aligned block of its rounded-up size
    has only bytes that the region began with and no live block covers. -/
theorem heap_session_coalesces {accepted : List (Nat × Nat)} {a : BuddyAllocator}
    (prepared : Prepared accepted a) (base size : Nat) {s : BuddyAllocator}
    {live : List (Nat × Nat)} (session : Session (a.init base size) s live) :
    NoFreeBuddies s.free ∧
    (∀ s' live', Session (a.init base size) s' live' →
      (∀ b, b ∈ grantedBlocks live ↔ b ∈ grantedBlocks live') →
      ∀ b, b ∈ s.free ↔ b ∈ s'.free) ∧
    (∀ entries : List (Nat × Nat), entries.Perm live →
      ∀ b, b ∈ (s.deallocateAll entries).free ↔ b ∈ (a.init base size).free) ∧
    ∀ request ≤ 16 * 2 ^ 20, (s.allocate request).1.isSome = true ↔
      ∃ b : Block, b.Aligned ∧ b.LeastFor request ∧
        b.bytes ⊆ covered (a.init base size).free \ covered (grantedBlocks live) := by
  refine ⟨session.noFreeBuddies_of_init prepared,
    fun s' live' session' => session.mem_free_iff prepared session', ?_, ?_⟩
  · intro entries hperm
    have returned := session.deallocateAll hperm
    exact returned.mem_free_iff prepared .start fun b => Iff.rfl
  · intro request hrequest
    have tiling := session.tiling_free prepared
    exact tiling.isSome_allocate_iff (session.noFreeBuddies_of_init prepared) hrequest

/-- The block below the hole was split for the request and is whole again afterwards. -/
theorem heap_session_coalesces_hole :
    NoFreeBuddies [⟨0x1020, 1⟩, ⟨0x1100, 4⟩, ⟨0x1080, 3⟩] ∧
    ∀ b, b ∈ (((holedHeap.init 0x1000 0x200).allocate 20).2.deallocateAll [(0x1000, 20)]).free ↔
      b ∈ (holedHeap.init 0x1000 0x200).free := by
  have session : Session (holedHeap.init 0x1000 0x200)
      ((holedHeap.init 0x1000 0x200).allocate 20).2 _ := Session.start.allocate 20
  rw [holedHeap_allocate] at session ⊢
  obtain ⟨hfree, -, hreturn, -⟩ :=
    heap_session_coalesces holedHeap_prepared 0x1000 0x200 session
  exact ⟨hfree, hreturn _ (List.Perm.refl _)⟩

end TaskKernel
