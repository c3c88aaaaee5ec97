/-
  TaskKernel.Proofs.Memory.UsableMemory

  What a region begins with. Memory comes in granules of the smallest block size; a granule
  is usable if it lies inside the region and meets no reserved range. The blocks that a
  region is cut into cover the usable granules and nothing else, and the scan that finds
  them needs no more rounds than the region has room for granules.
-/
import TaskKernel.Proofs.Memory.HeapSession
import Mathlib.Order.Interval.Set.LinearOrder

namespace TaskKernel

/-! ## Usable granules -/

/-- The `n`-th granule of memory. -/
def granule (n : Nat) : Set Nat := Set.Ico (n * minBlockSize) ((n + 1) * minBlockSize)

/-- The bytes of the granules that lie inside `[start, stop)` and meet none of `ranges`. -/
def usableBytes (ranges : List (Nat × Nat)) (start stop : Nat) : Set Nat :=
  {x | ∃ n, x ∈ granule n ∧ granule n ⊆ Set.Ico start stop ∧
    ∀ r ∈ ranges, Disjoint (granule n) (Set.Ico r.1 r.2)}

theorem granule_subset_Ico_iff {n start stop : Nat} :
    granule n ⊆ Set.Ico start stop ↔ start ≤ n * minBlockSize ∧ (n + 1) * minBlockSize ≤ stop := by
  apply Set.Ico_subset_Ico_iff
  exact Nat.mul_lt_mul_of_pos_right (Nat.lt_succ_self n) (by decide)

/-- A range with bytes is missed by a granule that ends before it or starts behind it. -/
theorem not_meets_of_disjoint {n : Nat} {r : Nat × Nat} (hbytes : r.1 < r.2)
    (h : Disjoint (granule n) (Set.Ico r.1 r.2)) :
    ¬ (n * minBlockSize < r.2 ∧ r.1 < (n + 1) * minBlockSize) := by
  rintro ⟨hstop, hstart⟩
  -- The first byte that both have.
  have hgranule : max (n * minBlockSize) r.1 ∈ granule n := by
    rw [granule, Set.mem_Ico]
    rw [minBlockSize] at *
    omega
  have hrange : max (n * minBlockSize) r.1 ∈ Set.Ico r.1 r.2 := by
    rw [Set.mem_Ico]
    omega
  exact Set.disjoint_left.1 h hgranule hrange

/-- An aligned block holds the whole granule of each of its bytes. -/
theorem Block.granule_subset {b : Block} (h : b.Aligned) {x : Nat} (hx : x ∈ b.bytes) :
    granule (x / minBlockSize) ⊆ b.bytes := by
  obtain ⟨size, hsize⟩ : minBlockSize ∣ b.size := minBlockSize_dvd_blockSize b.order
  obtain ⟨addr, haddr⟩ : minBlockSize ∣ b.addr := Nat.dvd_trans ⟨size, hsize⟩ h
  rw [mem_bytes] at hx
  refine granule_subset_Ico_iff.2 ?_
  rw [minBlockSize] at *
  omega

/-! ## The scan -/

/-- A reserved range that starts in the way has its end here. -/
theorem exists_of_reservedEnd? {reserved : List (Nat × Nat)} {addr len skip : Nat}
    (h : reservedEnd? reserved addr len = some skip) :
    ∃ r ∈ reserved, r.1 < addr + len ∧ r.2 = skip := by
  obtain ⟨r, hr, rfl⟩ := Option.map_eq_some_iff.1 h
  have hmeets := List.find?_some hr
  rw [decide_eq_true_eq] at hmeets
  exact ⟨r, List.mem_of_find?_eq_some hr, hmeets.2, rfl⟩

/-- No usable granule is passed over. -/
theorem granule_subset_covered_carve {reserved : List (Nat × Nat)} {stop addr n : Nat}
    (haddr : minBlockSize ∣ addr) (hle : addr ≤ n * minBlockSize)
    (hstop : (n + 1) * minBlockSize ≤ stop)
    (hfree : ∀ r ∈ reserved, ¬ (n * minBlockSize < r.2 ∧ r.1 < (n + 1) * minBlockSize)) :
    granule n ⊆ covered (carve reserved stop addr) := by
  fun_induction carve reserved stop addr with
  | case1 addr hfits skip hreserved hlt hskip ih =>
    -- The range in the way starts before the granule ends, so it ends before the granule starts.
    obtain ⟨r, hr, hstart, rfl⟩ := exists_of_reservedEnd? hreserved
    have hbehind := hfree r hr
    apply ih (minBlockSize_dvd_alignUp r.2)
    rw [alignUp]
    rw [minBlockSize] at *
    omega
  | case2 addr hfits hclear hpos ih =>
    generalize largestOrder reserved stop addr 0 = order at hpos ih
    obtain ⟨size, hsize⟩ := minBlockSize_dvd_blockSize order
    rw [covered_cons]
    by_cases hinside : n * minBlockSize < addr + blockSize order
    · -- Both ends of the block are ends of granules.
      obtain ⟨first, rfl⟩ := haddr
      refine Set.Subset.trans (granule_subset_Ico_iff.2 ⟨hle, ?_⟩) Set.subset_union_left
      show (n + 1) * minBlockSize ≤ minBlockSize * first + blockSize order
      rw [hsize] at hinside ⊢
      rw [minBlockSize] at *
      omega
    · have hrest := ih (Nat.dvd_add haddr ⟨size, hsize⟩) (Nat.le_of_not_lt hinside)
      exact hrest.trans Set.subset_union_right
  | case3 addr hfull =>
    rw [minBlockSize] at *
    omega

/-- The scan from `addr` on with a limit on its rounds; nothing if they do not suffice. -/
def carveWithin (reserved : List (Nat × Nat)) (stop addr : Nat) : Nat → Option (List Block)
  | 0 => if addr + minBlockSize ≤ stop then none else some []
  | rounds + 1 =>
    if addr + minBlockSize ≤ stop then
      match reservedEnd? reserved addr minBlockSize with
      | some skip => carveWithin reserved stop (alignUp skip minBlockSize) rounds
      | none =>
        let b : Block := ⟨addr, largestOrder reserved stop addr 0⟩
        (carveWithin reserved stop (addr + b.size) rounds).map (b :: ·)
    else some []

/-- Every round gets one granule further at least. -/
theorem carveWithin_eq_some {reserved : List (Nat × Nat)} {stop addr rounds : Nat}
    (haddr : minBlockSize ∣ addr) (hrounds : stop < addr + (rounds + 1) * minBlockSize) :
    carveWithin reserved stop addr rounds = some (carve reserved stop addr) := by
  fun_induction carve reserved stop addr generalizing rounds with
  | case1 addr hfits skip hreserved hlt hskip ih =>
    cases rounds with
    | zero => omega
    | succ rounds =>
      rw [carveWithin, if_pos hfits, hreserved]
      apply ih (minBlockSize_dvd_alignUp skip)
      obtain ⟨first, rfl⟩ := haddr
      rw [alignUp]
      rw [minBlockSize] at *
      omega
  | case2 addr hfits hclear hpos ih =>
    cases rounds with
    | zero => omega
    | succ rounds =>
      rw [carveWithin, if_pos hfits, hclear]
      dsimp only [Block.size]
      generalize largestOrder reserved stop addr 0 = order at hpos ih
      have hsize := minBlockSize_dvd_blockSize order
      have hgranule := Nat.le_of_dvd hpos hsize
      rw [ih (Nat.dvd_add haddr hsize) ?_, Option.map_some]
      rw [Nat.succ_mul] at hrounds
      omega
  | case3 addr hfull =>
    cases rounds with
    | zero => rw [carveWithin, if_neg hfull]
    | succ rounds => rw [carveWithin, if_neg hfull]

/-! ## What a region begins with -/

/-- Only accepted ranges are kept out. -/
theorem Prepared.mem_accepted {accepted : List (Nat × Nat)} {a : BuddyAllocator}
    (h : Prepared accepted a) {r : Nat × Nat} (hr : r ∈ a.reserved) : r ∈ accepted := by
  induction h with
  | empty => exact absurd hr List.not_mem_nil
  | @accept accepted a prepared start stop room ih =>
    rcases a.reserve_cases start stop with ⟨-, heq⟩ | ⟨-, heq⟩ | heq
    · rw [heq] at hr
      exact List.mem_cons_of_mem _ (ih hr)
    · rw [heq] at hr
      rcases List.mem_append.1 hr with hold | hnew
      · exact List.mem_cons_of_mem _ (ih hold)
      · rw [List.mem_singleton.1 hnew]
        exact List.mem_cons_self
    · rw [heq] at room
      cases room
  | @reject accepted a prepared start stop full ih =>
    rcases a.reserve_cases start stop with ⟨-, heq⟩ | ⟨-, heq⟩ | heq
    · rw [heq] at full
      cases full
    · rw [heq] at full
      cases full
    · rw [heq] at hr
      exact ih hr

theorem covered_init_eq {accepted : List (Nat × Nat)} {a : BuddyAllocator}
    (prepared : Prepared accepted a) (base size : Nat) :
    covered (a.init base size).free = usableBytes accepted base (base + size) := by
  have tiling := tiling_init a base size
  obtain ⟨hinside, hreserved⟩ := covered_init_subset prepared base size
  have hfree := covered_perm (init_free_perm a base size)
  ext x
  constructor
  · rintro ⟨b, hb, hx⟩
    have hgranule := (Block.granule_subset (tiling.aligned b hb) hx).trans (bytes_subset_covered hb)
    refine ⟨x / minBlockSize, ?_, hgranule.trans hinside,
      fun r hr => (hreserved r hr).mono_left hgranule⟩
    rw [granule, Set.mem_Ico, minBlockSize]
    omega
  · rintro ⟨n, hx, hregion, hclear⟩
    obtain ⟨hbase, hstop⟩ := granule_subset_Ico_iff.1 hregion
    rw [← hfree]
    refine granule_subset_covered_carve (minBlockSize_dvd_alignUp base) ?_ hstop (fun r hr => ?_) hx
    · rw [alignUp]
      rw [minBlockSize] at *
      omega
    · have haccepted := prepared.mem_accepted hr
      exact not_meets_of_disjoint (prepared.facts.nonempty r hr) (hclear r haccepted)

/-- Whatever ranges were reserved, the scan over a region ends within one round for each of
    its granules, and the free blocks that it leaves are aligned, do not overlap and cover
    exactly the granules inside the region that meet no reserved range. -/
theorem init_carves_usable {accepted : List (Nat × Nat)} {a : BuddyAllocator}
    (prepared : Prepared accepted a) (base size : Nat) :
    carveWithin a.reserved (base + size) (alignUp base minBlockSize) (size / minBlockSize) =
        some (a.init base size).free.reverse ∧
      Tiling (a.init base size).free (usableBytes accepted base (base + size)) := by
  constructor
  · have hfree : (a.init base size).free.reverse =
        carve a.reserved (base + size) (alignUp base minBlockSize) := List.reverse_reverse _
    rw [hfree]
    apply carveWithin_eq_some (minBlockSize_dvd_alignUp base)
    have hbase := le_alignUp base
    rw [minBlockSize] at *
    omega
  · rw [← covered_init_eq prepared base size]
    exact tiling_init a base size

/-- Two ranges that overlap, the later one listed first, and one that starts outside of the
    region: of its eight granules the two in the middle are left. -/
theorem init_carves_usable_overlapping :
    Tiling [⟨0x1040, 0⟩, ⟨0x1030, 0⟩]
      (usableBytes [(0xfff, 0x1018), (0x1010, 0x1024), (0x1058, 0x1100)] 0x1000
        (0x1000 + 0x80)) := by
  have prepared := ((Prepared.empty.accept 0x1058 0x1100 (by decide)).accept 0x1010 0x1024
    (by decide)).accept 0xfff 0x1018 (by decide)
  obtain ⟨-, tiling⟩ := init_carves_usable prepared 0x1000 0x80
  have hfree : ((((BuddyAllocator.empty.reserve 0x1058 0x1100).2.reserve 0x1010 0x1024).2.reserve
      0xfff 0x1018).2.init 0x1000 0x80).free = [⟨0x1040, 0⟩, ⟨0x1030, 0⟩] := by decide +kernel
  rwa [hfree] at tiling

end TaskKernel
