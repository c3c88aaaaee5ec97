/-
  TaskKernel.Proofs.Memory.FrameLedger

  What the users of a frame source rely on: a frame handed out is page aligned, lies
  below 2 ^ 48 and is not held by anyone else. A ledger is that promise for a source,
  together with the set of frames that the source's state says are held.
-/
import TaskKernel.Memory.FramePool
import Mathlib.Algebra.Ring.Nat
import Mathlib.Data.Set.Lattice
import Mathlib.Order.BourbakiWitt
import Mathlib.Order.CompletePartialOrder
import Mathlib.Order.Interval.Set.Basic

namespace TaskKernel

/-! ## Ledgers -/

/-- Numbers of the frames that `size` bytes from `pa` on take. -/
def framesFrom (pa : PhysAddr) (size : Nat) : Set Nat :=
  Set.Ico pa.frameNumber (pa.frameNumber + pageCount size)

/-- What a source may hand out for `size` bytes while the frames in `held` are taken. -/
structure Grantable (held : Set Nat) (pa : PhysAddr) (size : Nat) : Prop where
  aligned : pa.pageOffset = 0
  below : pa.toNat + pageRoundUp size ≤ 2 ^ 48
  fresh : Disjoint held (framesFrom pa size)

/-- A frame source that keeps track of what it handed out, in its `valid` states. -/
structure FrameLedger (F : Type) [FrameSource F] where
  valid : F → Prop
  /-- Numbers of the frames handed out and not returned. -/
  held : F → Set Nat
  valid_allocate (frames : F) (size : Nat) (hvalid : valid frames) :
    valid (FrameSource.allocate frames size).2
  held_of_none (frames : F) (size : Nat) (hvalid : valid frames)
    (hnone : (FrameSource.allocate frames size).1 = none) :
    held (FrameSource.allocate frames size).2 = held frames
  grantable_of_some (frames : F) (size : Nat) (hvalid : valid frames) (pa : PhysAddr)
    (hsome : (FrameSource.allocate frames size).1 = some pa) : Grantable (held frames) pa size
  held_of_some (frames : F) (size : Nat) (hvalid : valid frames) (pa : PhysAddr)
    (hsome : (FrameSource.allocate frames size).1 = some pa) :
    held (FrameSource.allocate frames size).2 = held frames ∪ framesFrom pa size

theorem pageRoundUp_pageRoundUp (size : Nat) : pageRoundUp (pageRoundUp size) = pageRoundUp size := by
  simp only [pageRoundUp, pageSize]
  omega

theorem framesFrom_pageRoundUp (pa : PhysAddr) (size : Nat) :
    framesFrom pa (pageRoundUp size) = framesFrom pa size := by
  rw [framesFrom, framesFrom, pageCount, pageRoundUp_pageRoundUp, pageCount]

/-- A page-sized request takes exactly one frame. -/
theorem framesFrom_pageSize (pa : PhysAddr) : framesFrom pa pageSize = {pa.frameNumber} := by
  have hcount : pageCount pageSize = 1 := by decide
  ext n
  rw [framesFrom, hcount, Set.mem_Ico, Set.mem_singleton_iff]
  omega

/-- What a source hands out next is page aligned and ends within the 64-bit addresses. -/
def GrantsPages {F : Type} [FrameSource F] (frames : F) : Prop :=
  ∀ size pa, (FrameSource.allocate frames size).1 = some pa →
    pa.pageOffset = 0 ∧ pa.toNat + pageRoundUp size < 2 ^ 64

/-! ## Pools as ledgers -/

theorem firstFreeRun_free {n : Nat} {used : List Bool} {start : Nat}
    (h : firstFreeRun n used = some start) :
    start + n ≤ used.length ∧ ∀ i, start ≤ i → i < start + n → used[i]? = some false := by
  induction used generalizing start with
  | nil =>
    rw [firstFreeRun] at h
    split at h
    · next hn =>
      cases h
      subst hn
      exact ⟨Nat.le_refl 0, fun i _ hi => by omega⟩
    · cases h
  | cons page rest ih =>
    rw [firstFreeRun] at h
    split at h
    · next hrun =>
      obtain ⟨hlength, hall⟩ := hrun
      cases h
      have hn : n ≤ (page :: rest).length := by
        rw [List.length_take] at hlength
        omega
      refine ⟨by omega, fun i _ hi => ?_⟩
      have hlt : i < n := by omega
      -- The run starts here, so its pages are the first ones of the list.
      have hget : (page :: rest)[i]? = some ((page :: rest)[i]) :=
        List.getElem?_eq_getElem (by omega)
      have hmem : (page :: rest)[i] ∈ (page :: rest).take n :=
        List.mem_take_iff_getElem.2 ⟨i, by omega, rfl⟩
      have hfree := List.all_eq_true.1 hall _ hmem
      rw [hget]
      simpa using hfree
    -- The run starts further on: every page is one behind that of the shorter list.
    · obtain ⟨start', hstart', rfl⟩ := Option.map_eq_some_iff.1 h
      obtain ⟨hlength, hfree⟩ := ih hstart'
      refine ⟨by rw [List.length_cons]; omega, fun i hi hi' => ?_⟩
      have hpred : i = (i - 1) + 1 := by omega
      rw [hpred, List.getElem?_cons_succ]
      exact hfree (i - 1) (by omega) (by omega)

namespace FramePool

/-- The pool ends below 2 ^ 48. -/
def Fits (pool : FramePool) : Prop := poolBase.toNat + pool.used.length * pageSize ≤ 2 ^ 48

theorem fits_ofPages {pages : Nat} (h : poolBase.toNat + pages * pageSize ≤ 2 ^ 48) :
    (ofPages pages).Fits := by
  rwa [Fits, ofPages, List.length_replicate]

/-- The pool ends within the 64-bit addresses. -/
def Addressable (pool : FramePool) : Prop :=
  poolBase.toNat + pool.used.length * pageSize < 2 ^ 64

theorem Fits.addressable {pool : FramePool} (h : pool.Fits) : pool.Addressable := by
  unfold Fits at h
  unfold Addressable
  omega

theorem Addressable.lt {pool : FramePool} (h : pool.Addressable) {i : Nat}
    (hi : i ≤ pool.used.length) : poolBase.toNat + i * pageSize < 2 ^ 64 := by
  unfold Addressable at h
  have hmul := Nat.mul_le_mul_right pageSize hi
  omega

/-- Number of the frame that page `i` of every pool is. -/
def frameOfPage (i : Nat) : Nat := poolBase.toNat / pageSize + i

/-- Numbers of the frames that are marked as used. -/
def heldFrames (pool : FramePool) : Set Nat :=
  {n | ∃ i, pool.used[i]? = some true ∧ n = frameOfPage i}

theorem toNat_pageAddr {i : Nat} (h : poolBase.toNat + i * pageSize < 2 ^ 64) :
    (pageAddr i).toNat = poolBase.toNat + i * pageSize := by
  rw [Address.toNat, pageAddr, BitVec.toNat_add, BitVec.toNat_ofNat]
  have hlt : i * pageSize < 2 ^ 64 := by omega
  rw [Nat.mod_eq_of_lt hlt, Nat.mod_eq_of_lt h]

theorem frameNumber_pageAddr {i : Nat} (h : poolBase.toNat + i * pageSize < 2 ^ 64) :
    (pageAddr i).frameNumber = frameOfPage i := by
  rw [Address.frameNumber, toNat_pageAddr h, frameOfPage, pageSize,
    Nat.add_mul_div_right _ _ (by decide)]

/-- Every pool starts on a page boundary, so all its pages do. -/
theorem pageOffset_pageAddr {i : Nat} (h : poolBase.toNat + i * pageSize < 2 ^ 64) :
    (pageAddr i).pageOffset = 0 := by
  have hbase : poolBase.toNat = 256 * 4096 := by decide
  rw [Address.pageOffset_eq_mod, toNat_pageAddr h, hbase, pageSize]
  omega

/-- What the answer to a request says about the pool before and after it. -/
theorem allocate_some {pool : FramePool} {size : Nat} {pa : PhysAddr}
    (h : (pool.allocate size).1 = some pa) :
    ∃ start, firstFreeRun (pageCount size) pool.used = some start ∧ pa = pageAddr start ∧
      (pool.allocate size).2.used = markPages start (pageCount size) true pool.used := by
  unfold allocate at h ⊢
  split at h
  · cases h
  · next hbudget =>
    rw [if_neg hbudget]
    dsimp only at h ⊢
    split at h
    · cases h
    · next start hstart =>
      cases h
      exact ⟨start, hstart, rfl, rfl⟩

theorem used_of_allocate_none {pool : FramePool} {size : Nat}
    (h : (pool.allocate size).1 = none) : (pool.allocate size).2.used = pool.used := by
  unfold allocate at h ⊢
  split
  · rfl
  · next hbudget =>
    rw [if_neg hbudget] at h
    dsimp only at h ⊢
    split at h
    · rfl
    · cases h

theorem length_used_allocate (pool : FramePool) (size : Nat) :
    (pool.allocate size).2.used.length = pool.used.length := by
  cases h : (pool.allocate size).1 with
  | none => rw [used_of_allocate_none h]
  | some pa =>
    obtain ⟨start, -, -, hused⟩ := allocate_some h
    rw [hused, length_markPages]

/-- Only free frames are handed out. -/
theorem fresh_of_allocate {pool : FramePool} (haddr : pool.Addressable) {size : Nat}
    {pa : PhysAddr} (h : (pool.allocate size).1 = some pa) :
    Disjoint pool.heldFrames (framesFrom pa size) := by
  obtain ⟨start, hstart, rfl, -⟩ := allocate_some h
  obtain ⟨hlength, hfree⟩ := firstFreeRun_free hstart
  rw [Set.disjoint_left]
  rintro n ⟨i, hused, rfl⟩ hmem
  rw [framesFrom, frameNumber_pageAddr (haddr.lt (by omega)), Set.mem_Ico, frameOfPage,
    frameOfPage] at hmem
  rw [hfree i (by omega) (by omega)] at hused
  cases hused

/-- What is handed out starts on a page boundary and ends within the pool. -/
theorem place_of_allocate {pool : FramePool} (haddr : pool.Addressable) {size : Nat}
    {pa : PhysAddr} (h : (pool.allocate size).1 = some pa) :
    pa.pageOffset = 0 ∧
      pa.toNat + pageRoundUp size ≤ poolBase.toNat + pool.used.length * pageSize := by
  obtain ⟨start, hstart, rfl, -⟩ := allocate_some h
  obtain ⟨hlength, -⟩ := firstFreeRun_free hstart
  have hlt := haddr.lt (i := start) (by omega)
  refine ⟨pageOffset_pageAddr hlt, ?_⟩
  have hmul := Nat.mul_le_mul_right pageSize hlength
  rw [Nat.add_mul] at hmul
  rw [toNat_pageAddr hlt, ← pageCount_mul]
  omega

theorem Addressable.grantsPages {pool : FramePool} (haddr : pool.Addressable) :
    GrantsPages pool := by
  intro size pa h
  obtain ⟨haligned, hend⟩ := place_of_allocate haddr h
  exact ⟨haligned, Nat.lt_of_le_of_lt hend haddr⟩

theorem grantable_of_allocate {pool : FramePool} (hfits : pool.Fits) {size : Nat} {pa : PhysAddr}
    (h : (pool.allocate size).1 = some pa) : Grantable pool.heldFrames pa size := by
  obtain ⟨haligned, hend⟩ := place_of_allocate hfits.addressable h
  exact ⟨haligned, hend.trans hfits, fresh_of_allocate hfits.addressable h⟩

theorem heldFrames_of_allocate {pool : FramePool} (haddr : pool.Addressable) {size : Nat} {pa : PhysAddr}
    (h : (pool.allocate size).1 = some pa) :
    (pool.allocate size).2.heldFrames = pool.heldFrames ∪ framesFrom pa size := by
  obtain ⟨start, hstart, rfl, hused⟩ := allocate_some h
  obtain ⟨hlength, hfree⟩ := firstFreeRun_free hstart
  have hlt := haddr.lt (i := start) (by omega)
  ext n
  rw [Set.mem_union, framesFrom, frameNumber_pageAddr hlt, Set.mem_Ico]
  unfold heldFrames
  rw [Set.mem_ofPred_eq, Set.mem_ofPred_eq, hused]
  unfold frameOfPage
  -- A page is held afterwards iff it was held before or lies in the run.
  constructor
  · rintro ⟨i, hi, rfl⟩
    rw [getElem?_markPages] at hi
    obtain ⟨page, hpage, hmark⟩ := Option.map_eq_some_iff.1 hi
    split at hmark
    · next hrange => exact Or.inr (by omega)
    · exact Or.inl ⟨i, by rw [hpage, hmark], rfl⟩
  · rintro (⟨i, hi, rfl⟩ | hrange)
    · refine ⟨i, ?_, rfl⟩
      rw [getElem?_markPages, hi, Option.map_some, ite_self]
    · have hpage := hfree (n - poolBase.toNat / pageSize) (by omega) (by omega)
      refine ⟨n - poolBase.toNat / pageSize, ?_, by omega⟩
      rw [getElem?_markPages, hpage, Option.map_some, if_pos (by omega)]

/-- Pools that end below 2 ^ 48 hand out only frames that are free. -/
def ledger : FrameLedger FramePool where
  valid := Fits
  held := heldFrames
  valid_allocate pool size hfits := by
    show (pool.allocate size).2.Fits
    unfold Fits
    rw [length_used_allocate]
    exact hfits
  held_of_none pool size _ hnone := by
    show (pool.allocate size).2.heldFrames = pool.heldFrames
    unfold heldFrames
    rw [used_of_allocate_none hnone]
  grantable_of_some _ _ hfits _ hsome := grantable_of_allocate hfits hsome
  held_of_some _ _ hfits _ hsome := heldFrames_of_allocate hfits.addressable hsome

end FramePool

end TaskKernel
