/-
  TaskKernel.Proofs.PageTable.Apart

  Tables apart from frames in other use. Of the frames that a source has handed out only
  some are tables; as long as the others are told apart, they may be taken, filled and
  given back without any table or leaf being touched.
-/
import TaskKernel.Proofs.PageTable.Mapping
import TaskKernel.Proofs.Memory.PoolBooks

namespace TaskKernel

/-! ## Ledgers of tables -/

namespace FrameLedger

variable {F : Type} [FrameSource F]

theorem held_subset (L : FrameLedger F) {frames : F} (hvalid : L.valid frames) (size : Nat) :
    L.held frames ⊆ L.held (FrameSource.allocate frames size).2 := by
  cases hresult : (FrameSource.allocate frames size).1 with
  | none => rw [L.held_of_none frames size hvalid hresult]
  | some pa =>
    rw [L.held_of_some frames size hvalid pa hresult]
    exact Set.subset_union_left

/-- A request that is refused changes nothing on the ledger. -/
theorem refused (L : FrameLedger F) {mem mem' : Memory F} (hvalid : L.valid mem.frames)
    {size : Nat} (heq : mem.allocate size = (none, mem')) :
    L.valid mem'.frames ∧ L.held mem'.frames = L.held mem.frames := by
  have hframes := frames_of_allocate heq
  have hvalid' := L.valid_allocate mem.frames size hvalid
  have hheld := L.held_of_none mem.frames size hvalid (congrArg Prod.fst hframes)
  rw [hframes] at hvalid' hheld
  exact ⟨hvalid', hheld⟩

/-- The ledger in which the frames `others` are held, but not for tables. -/
def besides (L : FrameLedger F) (others : Set Nat) : FrameLedger F where
  valid frames := L.valid frames ∧ others ⊆ L.held frames
  held frames := L.held frames \ others
  valid_allocate frames size hvalid :=
    ⟨L.valid_allocate frames size hvalid.1, hvalid.2.trans (L.held_subset hvalid.1 size)⟩
  held_of_none frames size hvalid hnone := by rw [L.held_of_none frames size hvalid.1 hnone]
  grantable_of_some frames size hvalid pa hsome := by
    have grant := L.grantable_of_some frames size hvalid.1 pa hsome
    exact ⟨grant.aligned, grant.below, grant.fresh.mono_left Set.sdiff_subset⟩
  held_of_some frames size hvalid pa hsome := by
    have grant := L.grantable_of_some frames size hvalid.1 pa hsome
    have hapart : Disjoint (framesFrom pa size) others := (grant.fresh.mono_left hvalid.2).symm
    rw [L.held_of_some frames size hvalid.1 pa hsome, Set.union_sdiff_distrib, hapart.sdiff_eq_left]

namespace Carries

variable {L : FrameLedger F} {others others' : Set Nat} {mem mem' : Memory F}
  {roots roots' : Set PhysAddr}

/-- Trees that nobody walks any more may be forgotten. -/
theorem fewer (h : L.Carries mem roots) (hroots : roots' ⊆ roots) : L.Carries mem roots' :=
  ⟨h.valid, h.forest.mono hroots (Set.Subset.refl _)⟩

/-- No table stands in one of the other frames. -/
theorem notMem_others (h : (L.besides others).Carries mem roots) {root table : PhysAddr}
    {path : List (Fin 512)} (hreached : Reached mem.ram roots root path table) :
    table.frameNumber ∉ others :=
  (h.forest.held_of_reached hreached).2

theorem refuse (h : (L.besides others).Carries mem roots) {size : Nat}
    (heq : mem.allocate size = (none, mem')) : (L.besides others).Carries mem' roots := by
  obtain ⟨hvalid, hheld⟩ := (L.besides others).refused h.valid heq
  exact h.of_ram_eq (ram_of_allocate heq) hvalid hheld

/-- What is taken for another use joins the other frames. -/
theorem reserve (h : (L.besides others).Carries mem roots) {size : Nat} {pa : PhysAddr}
    (heq : mem.allocate size = (some pa, mem')) :
    (L.besides (others ∪ framesFrom pa size)).Carries mem' roots ∧
      Grantable (L.held mem.frames) pa size := by
  obtain ⟨hvalid, hothers⟩ := h.valid
  have hframes := frames_of_allocate heq
  have hgrant := L.grantable_of_some mem.frames size hvalid pa (congrArg Prod.fst hframes)
  have hheld := L.held_of_some mem.frames size hvalid pa (congrArg Prod.fst hframes)
  have hvalid' := L.valid_allocate mem.frames size hvalid
  rw [hframes] at hheld hvalid'
  refine ⟨⟨⟨hvalid', ?_⟩, ?_⟩, hgrant⟩
  · rw [hheld]
    exact Set.union_subset_union_left _ hothers
  · rw [ram_of_allocate heq]
    refine h.forest.mono (Set.Subset.refl _) ?_
    rintro n ⟨hn, hout⟩
    refine ⟨?_, ?_⟩
    · rw [hheld]
      exact Or.inl hn
    · rintro (hin | hin)
      · exact hout hin
      · exact Set.disjoint_left.1 hgrant.fresh hn hin

/-- Writing to the other frames touches no table. -/
theorem entry_overwrite (h : (L.besides others).Carries mem roots) {ram : Ram}
    (hsame : ∀ n, n ∉ others → ram.frame n = mem.ram.frame n) {root table : PhysAddr}
    {path : List (Fin 512)} (hreached : Reached mem.ram roots root path table) (slot : Fin 512) :
    ram.entry table slot = mem.ram.entry table slot := by
  rw [Ram.entry, Ram.entry, hsame _ (h.notMem_others hreached)]

/-- Writing to the other frames changes no leaf. -/
theorem overwrite (h : (L.besides others).Carries mem roots) (f : Ram → Ram)
    (hsame : ∀ n, n ∉ others → (f mem.ram).frame n = mem.ram.frame n) :
    (L.besides others).Carries (mem.mapRam f) roots ∧ SameLeaves roots mem.ram (f mem.ram) := by
  refine ⟨⟨h.valid, h.forest.congr fun _ _ _ hr _ slot => h.entry_overwrite hsame hr slot⟩, ?_⟩
  intro root hroot path hlength slot
  exact leafAt_congr
    (findTable_congr (fun _ _ _ hr _ slot => h.entry_overwrite hsame hr slot) hroot (by omega))
    fun _ hfound => h.entry_overwrite hsame ⟨hroot, by omega, hfound⟩ slot

end Carries

end FrameLedger

/-! ## Giving back -/

/-- An aligned address is told by its frame. -/
theorem Address.eq_of_frameNumber {kind : AddressKind} {a b : Address kind}
    (haligned : a.pageOffset = 0) (haligned' : b.pageOffset = 0)
    (hframe : a.frameNumber = b.frameNumber) : a = b := by
  have hframe : a.toNat / 4096 = b.toNat / 4096 := hframe
  have hnat : a.raw.toNat = b.raw.toNat := by
    show a.toNat = b.toNat
    rw [Address.pageOffset_eq_mod] at haligned haligned'
    omega
  exact congrArg Address.mk (BitVec.eq_of_toNat_eq hnat)

/-- A return of held frames frees them and no others. -/
theorem FramePool.heldFrames_release_of_subset {pool : FramePool} (hfits : pool.Fits)
    {pa : PhysAddr} (haligned : pa.pageOffset = 0) {size : Nat}
    (hheld : framesFrom pa size ⊆ pool.heldFrames) :
    (pool.release pa size).heldFrames = pool.heldFrames \ framesFrom pa size := by
  obtain ⟨i, hused, hframe⟩ := hheld (Allocation.frameNumber_mem ⟨pa, size⟩)
  obtain ⟨hi, -⟩ := List.getElem?_eq_some_iff.1 hused
  have hlt := hfits.addressable.lt (Nat.le_of_lt hi)
  obtain rfl : pa = pageAddr i := by
    apply Address.eq_of_frameNumber haligned (pageOffset_pageAddr hlt)
    rw [frameNumber_pageAddr hlt]
    exact hframe
  exact heldFrames_release hfits.addressable hi size

namespace FrameLedger

variable {F : Type} [FrameSource F]

/-- Of held frames that are returned the ledger is told that they are free. -/
structure Returns (L : FrameLedger F) : Prop where
  valid {frames : F} (hvalid : L.valid frames) (pa : PhysAddr) (size : Nat) :
    L.valid (FrameSource.release frames pa size)
  held {frames : F} (hvalid : L.valid frames) {pa : PhysAddr} (haligned : pa.pageOffset = 0)
    {size : Nat} (hheld : framesFrom pa size ⊆ L.held frames) :
    L.held (FrameSource.release frames pa size) = L.held frames \ framesFrom pa size

theorem returns_pool : FramePool.ledger.Returns where
  valid {pool} hfits pa size := by
    show poolBase.toNat + (pool.release pa size).used.length * pageSize ≤ 2 ^ 48
    rw [FramePool.length_used_release]
    exact hfits
  held := FramePool.heldFrames_release_of_subset

variable {L : FrameLedger F} {others others' : Set Nat} {mem : Memory F} {roots : Set PhysAddr}

/-- A range among the other frames may go back to the source. -/
theorem Carries.giveBack (h : (L.besides others).Carries mem roots) (hreturns : L.Returns)
    {pa : PhysAddr} (haligned : pa.pageOffset = 0) {size : Nat} (hin : framesFrom pa size ⊆ others)
    (hleft : others' ⊆ others) (hapart : Disjoint others' (framesFrom pa size)) :
    (L.besides others').Carries (mem.release pa size) roots := by
  obtain ⟨hvalid, hheld⟩ := h.valid
  have hrelease : L.held (mem.release pa size).frames = L.held mem.frames \ framesFrom pa size :=
    hreturns.held hvalid haligned (hin.trans hheld)
  refine ⟨⟨hreturns.valid hvalid pa size, ?_⟩, h.forest.mono (Set.Subset.refl _) ?_⟩
  · rw [hrelease]
    exact Set.subset_sdiff.2 ⟨hleft.trans hheld, hapart⟩
  · rintro n ⟨hn, hout⟩
    refine ⟨?_, fun hn' => hout (hleft hn')⟩
    rw [hrelease]
    exact ⟨hn, fun hn' => hout (hin hn')⟩

end FrameLedger

end TaskKernel
