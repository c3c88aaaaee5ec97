/-
  TaskKernel.Proofs.Memory.PoolBooks

  The books of a pool. As long as every return matches an entry, the frames that a pool
  marks as used are those of the entries, each in one entry only, besides the frames that
  were in use from the start.
-/
import TaskKernel.Proofs.Memory.FrameLedger
import TaskKernel.Proofs.Memory.Turnover
import Mathlib.Data.Multiset.UnionInter

namespace TaskKernel

/-- Numbers of the frames of an allocation. -/
def Allocation.frames (a : Allocation) : Set Nat := framesFrom a.base a.size

theorem Allocation.frameNumber_mem (a : Allocation) : a.base.frameNumber ∈ a.frames := by
  have hpos := pageCount_pos a.size
  exact ⟨Nat.le_refl _, by omega⟩

namespace FramePool

/-! ## Returns -/

theorem pageOf?_pageAddr {pool : FramePool} (haddr : pool.Addressable) {i : Nat}
    (hi : i < pool.used.length) : pool.pageOf? (pageAddr i) = some i := by
  have hnat := toNat_pageAddr (haddr.lt (Nat.le_of_lt hi))
  have hle : poolBase ≤ (pageAddr i).raw := by
    rw [BitVec.le_def]
    show poolBase.toNat ≤ (pageAddr i).toNat
    omega
  have hpage : ((pageAddr i).toNat - poolBase.toNat) / pageSize = i := by
    rw [hnat, Nat.add_sub_cancel_left, Nat.mul_div_cancel _ (by decide)]
  rw [pageOf?, if_pos hle]
  simp only [hpage]
  exact if_pos hi

@[simp] theorem length_used_release (pool : FramePool) (pa : PhysAddr) (size : Nat) :
    (pool.release pa size).used.length = pool.used.length := by
  rw [release]
  split
  · rfl
  · exact length_markPages _ _ _ _

/-- A return frees the frames of the range and no others. -/
theorem heldFrames_release {pool : FramePool} (haddr : pool.Addressable) {i : Nat}
    (hi : i < pool.used.length) (size : Nat) :
    (pool.release (pageAddr i) size).heldFrames =
      pool.heldFrames \ framesFrom (pageAddr i) size := by
  have hpage : ({ pool with releases := pool.releases ++ [(pageAddr i, size)] } :
      FramePool).pageOf? (pageAddr i) = some i := pageOf?_pageAddr haddr hi
  have hused : (pool.release (pageAddr i) size).used =
      markPages i (pageCount size) false pool.used := by
    simp only [release, hpage]
  ext n
  rw [Set.mem_sdiff, framesFrom, frameNumber_pageAddr (haddr.lt (Nat.le_of_lt hi)), Set.mem_Ico]
  unfold heldFrames frameOfPage
  rw [Set.mem_ofPred_eq, Set.mem_ofPred_eq, hused]
  constructor
  · rintro ⟨j, hj, rfl⟩
    -- A page that is still marked was marked before, and not in the range.
    rw [getElem?_markPages] at hj
    obtain ⟨page, hpage, hmark⟩ := Option.map_eq_some_iff.1 hj
    split at hmark
    · cases hmark
    · next hout => exact ⟨⟨j, by rw [hpage, hmark], rfl⟩, by omega⟩
  · rintro ⟨⟨j, hj, rfl⟩, hout⟩
    refine ⟨j, ?_, rfl⟩
    rw [getElem?_markPages, hj, Option.map_some, if_neg (by omega)]

theorem releases_release (pool : FramePool) (pa : PhysAddr) (size : Nat) :
    (pool.release pa size).releases = pool.releases ++ [(pa, size)] := by
  rw [release]
  split <;> rfl

theorem length_used_of_allocate {pool pool' : FramePool} {size : Nat} {pa : Option PhysAddr}
    (h : FrameSource.allocate pool size = (pa, pool')) : pool'.used.length = pool.used.length := by
  rw [← show (pool.allocate size).2 = pool' from congrArg Prod.snd h, length_used_allocate]

theorem releases_of_allocate {pool pool' : FramePool} {size : Nat} {pa : Option PhysAddr}
    (h : FrameSource.allocate pool size = (pa, pool')) : pool'.releases = pool.releases := by
  rw [← show (pool.allocate size).2 = pool' from congrArg Prod.snd h, allocate]
  split
  · rfl
  · dsimp only
    split <;> rfl

/-! ## Books -/

/-- The used frames of a pool are those of the allocations on the books and those of
    `reserved`, without overlap. -/
structure Booked (reserved : Set Nat) (pool : FramePool) (books : Multiset Allocation) : Prop where
  addressable : pool.Addressable
  placed : ∀ a ∈ books, ∃ i, a.base = pageAddr i ∧ i + pageCount a.size ≤ pool.used.length
  nodup : books.Nodup
  disjoint : ∀ a ∈ books, ∀ b ∈ books, a ≠ b → Disjoint a.frames b.frames
  apart : ∀ a ∈ books, Disjoint reserved a.frames
  held : pool.heldFrames = reserved ∪ {n | ∃ a ∈ books, n ∈ a.frames}

/-- A pool with nothing on the books keeps the frames that are in use for itself. -/
theorem booked_start {pool : FramePool} (haddr : pool.Addressable) :
    Booked pool.heldFrames pool 0 where
  addressable := haddr
  placed a h := absurd h (Multiset.notMem_zero a)
  nodup := Multiset.nodup_zero
  disjoint a h := absurd h (Multiset.notMem_zero a)
  apart a h := absurd h (Multiset.notMem_zero a)
  held := by simp

namespace Booked

variable {reserved : Set Nat} {pool : FramePool} {books : Multiset Allocation}

theorem frames_subset (h : Booked reserved pool books) {a : Allocation} (ha : a ∈ books) :
    a.frames ⊆ pool.heldFrames := by
  intro n hn
  rw [h.held]
  exact Or.inr ⟨a, ha, hn⟩

/-- Only the used pages matter. -/
theorem of_used_eq (h : Booked reserved pool books) {pool' : FramePool}
    (hused : pool'.used = pool.used) : Booked reserved pool' books where
  addressable := by
    rw [Addressable, hused]
    exact h.addressable
  placed := by
    rw [hused]
    exact h.placed
  nodup := h.nodup
  disjoint := h.disjoint
  apart := h.apart
  held := by
    rw [← h.held, heldFrames, heldFrames, hused]

theorem take (h : Booked reserved pool books) {size : Nat} {pa : PhysAddr}
    (hsome : (pool.allocate size).1 = some pa) :
    Booked reserved (pool.allocate size).2 (⟨pa, size⟩ ::ₘ books) := by
  have hfresh := fresh_of_allocate h.addressable hsome
  have hnew : ∀ a ∈ books, Disjoint a.frames (framesFrom pa size) := fun a ha =>
    hfresh.mono_left (h.frames_subset ha)
  refine ⟨?_, ?_, ?_, ?_, ?_, ?_⟩
  · rw [Addressable, length_used_allocate]
    exact h.addressable
  · rw [length_used_allocate]
    intro a ha
    rcases Multiset.mem_cons.1 ha with rfl | ha
    · obtain ⟨start, hstart, hpa, -⟩ := allocate_some hsome
      exact ⟨start, hpa, (firstFreeRun_free hstart).1⟩
    · exact h.placed a ha
  · refine Multiset.nodup_cons.2 ⟨fun hmem => ?_, h.nodup⟩
    -- The new allocation would overlap itself.
    exact Set.disjoint_left.1 (hnew _ hmem) (Allocation.frameNumber_mem _)
      (Allocation.frameNumber_mem ⟨pa, size⟩)
  · intro a ha b hb hne
    rcases Multiset.mem_cons.1 ha with rfl | ha
    · rcases Multiset.mem_cons.1 hb with rfl | hb
      · exact absurd rfl hne
      · exact (hnew b hb).symm
    · rcases Multiset.mem_cons.1 hb with rfl | hb
      · exact hnew a ha
      · exact h.disjoint a ha b hb hne
  · intro a ha
    rcases Multiset.mem_cons.1 ha with rfl | ha
    · refine hfresh.mono_left ?_
      rw [h.held]
      exact Set.subset_union_left
    · exact h.apart a ha
  · rw [heldFrames_of_allocate h.addressable hsome, h.held]
    ext n
    simp only [Set.mem_union, Set.mem_ofPred_eq, Multiset.mem_cons, exists_eq_or_imp]
    rw [or_assoc, or_comm (a := ∃ a ∈ books, n ∈ a.frames)]
    rfl

theorem of_taken (h : Booked reserved pool books) {pool' : FramePool} {size : Nat} {pa : PhysAddr}
    (heq : FrameSource.allocate pool size = (some pa, pool')) :
    Booked reserved pool' (⟨pa, size⟩ ::ₘ books) := by
  have hbooked := h.take (congrArg Prod.fst heq)
  rwa [show (pool.allocate size).2 = pool' from congrArg Prod.snd heq] at hbooked

theorem of_refused (h : Booked reserved pool books) {pool' : FramePool} {size : Nat}
    (heq : FrameSource.allocate pool size = (none, pool')) : Booked reserved pool' books := by
  have hused := used_of_allocate_none (show (pool.allocate size).1 = none from congrArg Prod.fst heq)
  rw [show (pool.allocate size).2 = pool' from congrArg Prod.snd heq] at hused
  exact h.of_used_eq hused

theorem release (h : Booked reserved pool books) {a : Allocation} (ha : a ∈ books) :
    Booked reserved (pool.release a.base a.size) (books.erase a) := by
  obtain ⟨i, hbase, hi⟩ := h.placed a ha
  have hpos := pageCount_pos a.size
  have hmem : ∀ b, b ∈ books.erase a → b ∈ books := fun b => Multiset.mem_of_mem_erase
  refine ⟨?_, ?_, h.nodup.erase a, ?_, ?_, ?_⟩
  · rw [Addressable, length_used_release]
    exact h.addressable
  · rw [length_used_release]
    exact fun b hb => h.placed b (hmem b hb)
  · exact fun b hb c hc => h.disjoint b (hmem b hb) c (hmem c hc)
  · exact fun b hb => h.apart b (hmem b hb)
  · have hrelease := heldFrames_release h.addressable (show i < pool.used.length by omega) a.size
    rw [← hbase, h.held] at hrelease
    rw [hrelease]
    ext n
    constructor
    · rintro ⟨hreserved | ⟨b, hb, hn⟩, hout⟩
      · exact Or.inl hreserved
      -- No entry is there twice, so striking `a` off once leaves no `a`.
      · refine Or.inr ⟨b, (h.nodup.mem_erase_iff).2 ⟨?_, hb⟩, hn⟩
        rintro rfl
        exact hout hn
    · rintro (hreserved | ⟨b, hb, hn⟩)
      · exact ⟨Or.inl hreserved, Set.disjoint_left.1 (h.apart a ha) hreserved⟩
      · obtain ⟨hne, hb⟩ := h.nodup.mem_erase_iff.1 hb
        exact ⟨Or.inr ⟨b, hb, hn⟩, Set.disjoint_left.1 (h.disjoint b hb a ha hne) hn⟩

end Booked

end FramePool

/-! ## Traffic of a pool -/

section

variable {F : Type} [FrameSource F] {mem mem' : Memory F} {size : Nat}

theorem frames_of_allocate {pa : Option PhysAddr} (h : mem.allocate size = (pa, mem')) :
    FrameSource.allocate mem.frames size = (pa, mem'.frames) := by
  cases h
  rfl

theorem ram_of_allocate {pa : Option PhysAddr} (h : mem.allocate size = (pa, mem')) :
    mem'.ram = mem.ram := by
  cases h
  rfl

theorem frames_of_allocateTable {pa : PhysAddr} (h : mem.allocateTable = (some pa, mem')) :
    FrameSource.allocate mem.frames pageSize = (some pa, mem'.frames) := by
  rw [Memory.allocateTable] at h
  split at h
  · cases h
  · next heq =>
    cases h
    exact (frames_of_allocate heq).trans rfl

end

section

variable {mem mem' : Memory FramePool} {reserved : Set Nat}
  {books books' others : Multiset Allocation} {events : List FrameEvent}

/-- A pool stays booked through all that settles, and what is returned was not among the
    entries that the events leave alone. -/
theorem FramePool.Booked.traffic (h : Booked reserved mem.frames (books + others))
    (traffic : Traffic mem events mem') (hsettle : settle books events = some books') :
    Booked reserved mem'.frames (books' + others) ∧ ∀ a ∈ returnsOf events, a ∉ others := by
  -- On the traffic; each return is found among `books`, so `others` stays as it is.
  induction traffic generalizing books with
  | nil =>
    cases hsettle
    exact ⟨h, fun _ hmem => absurd hmem List.not_mem_nil⟩
  | refused request rest ih =>
    exact ih (h.of_refused (frames_of_allocate request)) hsettle
  | taken request fill inside rest ih =>
    have hbooked := h.of_taken (frames_of_allocate request)
    rw [← Multiset.cons_add] at hbooked
    exact ih hbooked hsettle
  | table request rest ih =>
    have hbooked := h.of_taken (frames_of_allocateTable request)
    rw [← Multiset.cons_add] at hbooked
    exact ih hbooked hsettle
  | @returned mem mem' a events rest ih =>
    rw [settle, FrameEvent.settle] at hsettle
    split at hsettle
    · next hmem =>
      have hbooked := h.release (Multiset.mem_add.2 (Or.inl hmem))
      rw [Multiset.erase_add_left_pos _ hmem] at hbooked
      obtain ⟨hafter, hfresh⟩ := ih hbooked hsettle
      refine ⟨hafter, fun b hb => ?_⟩
      rcases List.mem_cons.1 hb with rfl | hb
      · exact Multiset.disjoint_left.1 (Multiset.nodup_add.1 h.nodup).2.2 hmem
      · exact hfresh b hb
    · cases hsettle
  | entry table slot present rest ih => exact ih h hsettle

/-- A pool keeps its size. -/
theorem length_used_of_traffic (traffic : Traffic mem events mem') :
    mem'.frames.used.length = mem.frames.used.length := by
  induction traffic with
  | nil => rfl
  | refused request rest ih =>
    exact ih.trans (FramePool.length_used_of_allocate (frames_of_allocate request))
  | taken request fill inside rest ih =>
    have hlength := FramePool.length_used_of_allocate (frames_of_allocate request)
    exact ih.trans hlength
  | table request rest ih =>
    exact ih.trans (FramePool.length_used_of_allocate (frames_of_allocateTable request))
  | returned rest ih => exact ih.trans (FramePool.length_used_release _ _ _)
  | entry table slot present rest ih => exact ih

/-- A pool's own record of releases is the list of returns. -/
theorem releases_of_traffic (traffic : Traffic mem events mem') :
    mem'.frames.releases =
      mem.frames.releases ++ (returnsOf events).map fun a => (a.base, a.size) := by
  induction traffic with
  | nil => exact (List.append_nil _).symm
  | refused request rest ih => rw [ih, FramePool.releases_of_allocate (frames_of_allocate request)]
  | taken request fill inside rest ih =>
    rw [ih, Memory.mapRam_frames, FramePool.releases_of_allocate (frames_of_allocate request)]
    rfl
  | table request rest ih =>
    rw [ih, FramePool.releases_of_allocate (frames_of_allocateTable request)]
    rfl
  | @returned mem mem' a events rest ih =>
    have hrelease := FramePool.releases_release mem.frames a.base a.size
    rw [ih, show (mem.release a.base a.size).frames.releases = _ from hrelease, List.append_assoc]
    rfl
  | entry table slot present rest ih => exact ih

end

end TaskKernel
