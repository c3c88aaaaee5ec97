/-
  TaskKernel.Proofs.Memory.SharedHeap

  The life of the kernel heap, before and after it is started. Byte layouts and whole pages
  come from one buddy allocator: what an interface asks it for depends on the request alone,
  so a return names the block that the request was granted, and every life of the heap is a
  session of its allocator. Addresses and sizes are plain numbers here; lives include all
  those in which no sum reaches the size of a machine word.
-/
import Mathlib.Algebra.Ring.Nat
import TaskKernel.Memory.KernelHeap
import TaskKernel.Proofs.Memory.Coalescing

namespace TaskKernel

/-! ## Requests -/

/-- What the heap can be asked for. -/
inductive HeapRequest where
  | bytes (layout : ByteLayout)
  | pages (size : Nat)
deriving DecidableEq, Repr

namespace HeapRequest

/-- A layout that can exist, or a size that rounds up to pages within a machine word. -/
def Valid : HeapRequest → Prop
  | bytes layout => layout.isValid = true
  | pages size => size + (pageSize - 1) < 2 ^ 64

instance (request : HeapRequest) : Decidable request.Valid :=
  match request with
  | bytes layout => inferInstanceAs (Decidable (layout.isValid = true))
  | pages size => inferInstanceAs (Decidable (size + (pageSize - 1) < 2 ^ 64))

def size : HeapRequest → Nat
  | bytes layout => layout.size
  | pages size => size

def align : HeapRequest → Nat
  | bytes layout => layout.align
  | pages _ => pageSize

/-- What the buddy allocator is asked for. -/
def blockRequest : HeapRequest → Nat
  | bytes layout => layout.blockRequest
  | pages size => pageRoundUp size

theorem size_le_blockRequest (request : HeapRequest) : request.size ≤ request.blockRequest := by
  cases request with
  | bytes layout => exact Nat.le_max_left _ _
  | pages size => exact le_pageRoundUp size

theorem align_le_blockRequest (request : HeapRequest) : request.align ≤ request.blockRequest := by
  cases request with
  | bytes layout => exact Nat.le_max_right _ _
  | pages size =>
    -- Even an empty request takes a page.
    show pageSize ≤ pageRoundUp size
    rw [← pageCount_mul]
    exact Nat.le_mul_of_pos_left _ (pageCount_pos size)

theorem exists_align_eq {request : HeapRequest} (valid : request.Valid) :
    ∃ k, request.align = 2 ^ k := by
  cases request with
  | bytes layout =>
    obtain ⟨hpower, -⟩ := Bool.and_eq_true_iff.1 (show layout.isValid = true from valid)
    obtain ⟨k, -, hk⟩ := List.any_eq_true.1 hpower
    refine ⟨k, ?_⟩
    rw [show HeapRequest.align (bytes layout) = 1 <<< k from beq_iff_eq.1 hk, Nat.shiftLeft_eq,
      Nat.one_mul]
  | pages size => exact ⟨12, rfl⟩

end HeapRequest

namespace KernelHeap

/-- A request through the interface that it belongs to. -/
def serve (heap : KernelHeap) : HeapRequest → Option Nat × KernelHeap
  | .bytes layout => heap.allocateBytes layout
  | .pages size => heap.allocatePages size

/-- A return through the interface that the request belongs to. -/
def takeBack (heap : KernelHeap) (addr : Nat) : HeapRequest → KernelHeap
  | .bytes layout => heap.releaseBytes (some addr) layout
  | .pages size => heap.releasePages addr size

/-- A heap that was not started grants nothing and stays as it is. -/
theorem serve_of_not_started {heap : KernelHeap} (h : heap.started = false)
    (request : HeapRequest) : heap.serve request = (none, heap) := by
  cases request with
  | bytes layout => rw [serve, allocateBytes, if_neg (by rw [h]; exact Bool.false_ne_true)]
  | pages size => rw [serve, allocatePages, if_neg (by rw [h]; exact Bool.false_ne_true)]

/-- A heap that was started passes each request on to its buddy allocator. -/
theorem serve_of_started {heap : KernelHeap} (h : heap.started = true) (request : HeapRequest) :
    heap.serve request = ((heap.buddy.allocate request.blockRequest).1,
      ⟨(heap.buddy.allocate request.blockRequest).2, true⟩) := by
  cases request with
  | bytes layout =>
    rw [serve, allocateBytes, if_pos h, ← h]
    rfl
  | pages size =>
    rw [serve, allocatePages, if_pos h, ← h]
    rfl

theorem takeBack_of_started {heap : KernelHeap} (h : heap.started = true) (addr : Nat)
    (request : HeapRequest) :
    heap.takeBack addr request = ⟨heap.buddy.deallocate addr request.blockRequest, true⟩ := by
  cases request with
  | bytes layout =>
    rw [takeBack, releaseBytes, if_pos h, ← h]
    rfl
  | pages size =>
    rw [takeBack, releasePages, ← h]
    rfl

end KernelHeap

/-! ## Grants -/

/-- An address that the heap handed out, with the request that it answered. -/
structure Grant where
  addr : Nat
  request : HeapRequest
deriving DecidableEq, Repr

namespace Grant

/-- How the buddy allocator knows the grant. -/
def entry (g : Grant) : Nat × Nat := (g.addr, g.request.blockRequest)

/-- The block that the grant stands for. -/
def block (g : Grant) : Block := granted g.entry

/-- A block is aligned to its size, and its size is a power of two that reaches the alignment
    asked for. -/
theorem align_dvd_addr {g : Grant} (valid : g.request.Valid) (haligned : g.block.Aligned)
    (hsize : g.request.blockRequest ≤ g.block.size) : g.request.align ∣ g.addr := by
  obtain ⟨k, hk⟩ := HeapRequest.exists_align_eq valid
  have hpower : g.block.size = 2 ^ (4 + g.block.order) := by
    rw [Block.size, blockSize_eq, Nat.pow_add]
    rfl
  have hle : 2 ^ k ≤ 2 ^ (4 + g.block.order) := by
    rw [← hk, ← hpower]
    exact Nat.le_trans g.request.align_le_blockRequest hsize
  have hdvd : g.request.align ∣ g.block.size := by
    rw [hk, hpower]
    exact Nat.pow_dvd_pow 2 ((Nat.pow_le_pow_iff_right (by decide)).1 hle)
  exact Nat.dvd_trans hdvd haligned

/-- Grants and their entries stand for the same blocks. -/
theorem perm_blocks {entries : List (Nat × Nat)} {live : List Grant}
    (h : entries.Perm (live.map entry)) : (grantedBlocks entries).Perm (live.map block) := by
  have hgranted := h.map granted
  rwa [List.map_map] at hgranted

end Grant

/-- The live grants after a request. -/
def recordServed (request : HeapRequest) (live : List Grant) : Option Nat → List Grant
  | none => live
  | some addr => ⟨addr, request⟩ :: live

/-! ## Reservations -/

namespace BuddyAllocator

/-- Reserves the ranges one after the other, as far as there is room. -/
def reserveAll (a : BuddyAllocator) (ranges : List (Nat × Nat)) : BuddyAllocator :=
  ranges.foldl (fun a r => (a.reserve r.1 r.2).2) a

/-- The ranges that are accepted when they are reserved in this order. -/
def accepted (a : BuddyAllocator) : List (Nat × Nat) → List (Nat × Nat)
  | [] => []
  | r :: ranges =>
    let later := (a.reserve r.1 r.2).2.accepted ranges
    if (a.reserve r.1 r.2).1 then r :: later else later

end BuddyAllocator

theorem Prepared.reserveAll {before : List (Nat × Nat)} {a : BuddyAllocator}
    (prepared : Prepared before a) (ranges : List (Nat × Nat)) :
    ∃ all, Prepared all (a.reserveAll ranges) ∧ before ⊆ all ∧ a.accepted ranges ⊆ all := by
  induction ranges generalizing before a with
  | nil => exact ⟨before, prepared, fun r hr => hr, fun r hr => absurd hr List.not_mem_nil⟩
  | cons r ranges ih =>
    cases hroom : (a.reserve r.1 r.2).1 with
    | true =>
      obtain ⟨all, hall, hbefore, hlater⟩ := ih (prepared.accept r.1 r.2 hroom)
      refine ⟨all, hall, fun _ hr' => hbefore (List.mem_cons_of_mem _ hr'), fun r' hr' => ?_⟩
      rw [BuddyAllocator.accepted, if_pos hroom] at hr'
      rcases List.mem_cons.1 hr' with rfl | hr'
      · exact hbefore List.mem_cons_self
      · exact hlater hr'
    | false =>
      obtain ⟨all, hall, hbefore, hlater⟩ := ih (prepared.reject r.1 r.2 hroom)
      refine ⟨all, hall, hbefore, fun r' hr' => ?_⟩
      rw [BuddyAllocator.accepted, if_neg (by rw [hroom]; exact Bool.false_ne_true)] at hr'
      exact hlater hr'

/-! ## Lives of the heap -/

/-- `HeapLife base size reserved heap live` says that requests, returns and at some point the
    start on `[base, base + size)` led from the heap without memory to `heap`. The heap is
    started once; `live` has what was granted and not returned, the latest first. Only live
    grants are returned, with the request that they answered. -/
inductive HeapLife (base size : Nat) (reserved : List (Nat × Nat)) :
    KernelHeap → List Grant → Prop
  | unstarted : HeapLife base size reserved .unstarted []
  | start {heap : KernelHeap} {live : List Grant} (life : HeapLife base size reserved heap live)
      (once : heap.started = false) :
      HeapLife base size reserved (heap.start base size reserved) live
  | serve {heap : KernelHeap} {live : List Grant} (life : HeapLife base size reserved heap live)
      (request : HeapRequest) (valid : request.Valid) :
      HeapLife base size reserved (heap.serve request).2
        (recordServed request live (heap.serve request).1)
  | takeBack {heap : KernelHeap} {live : List Grant}
      (life : HeapLife base size reserved heap live) (g : Grant) (owned : g ∈ live) :
      HeapLife base size reserved (heap.takeBack g.addr g.request) (live.erase g)

/-- The heap just after its start. -/
def KernelHeap.first (base size : Nat) (reserved : List (Nat × Nat)) : KernelHeap :=
  KernelHeap.unstarted.start base size reserved

/-- Returns grants one after the other. -/
def KernelHeap.takeBackAll (heap : KernelHeap) (grants : List Grant) : KernelHeap :=
  grants.foldl (fun heap g => heap.takeBack g.addr g.request) heap

namespace HeapLife

variable {base size : Nat} {reserved : List (Nat × Nat)} {heap : KernelHeap} {live : List Grant}

theorem valid (life : HeapLife base size reserved heap live) : ∀ g ∈ live, g.request.Valid := by
  induction life with
  | unstarted => exact fun g hg => absurd hg List.not_mem_nil
  | start life once ih => exact ih
  | @serve heap live life request valid ih =>
    cases (heap.serve request).1 with
    | none => exact ih
    | some addr =>
      intro g hg
      rcases List.mem_cons.1 hg with rfl | hg
      · exact valid
      · exact ih g hg
  | takeBack life g owned ih => exact fun g' hg' => ih g' (List.mem_of_mem_erase hg')

/-- Until its start the heap has nothing and gives nothing. -/
theorem of_not_started (life : HeapLife base size reserved heap live)
    (h : heap.started = false) : heap = .unstarted ∧ live = [] := by
  induction life with
  | unstarted => exact ⟨rfl, rfl⟩
  | start life once ih => cases h
  | @serve heap live life request valid ih =>
    cases hstarted : heap.started with
    | true =>
      rw [KernelHeap.serve_of_started hstarted] at h
      cases h
    | false =>
      rw [KernelHeap.serve_of_not_started hstarted]
      exact ih hstarted
  | @takeBack heap live life g owned ih =>
    cases hstarted : heap.started with
    | true =>
      rw [KernelHeap.takeBack_of_started hstarted] at h
      cases h
    | false =>
      rw [(ih hstarted).2] at owned
      exact absurd owned List.not_mem_nil

/-- From its start on, the heap is a session of its buddy allocator. The session returns the
    first of equal entries, the heap the grant that is meant; so the two lists agree up to
    their order. -/
theorem session (life : HeapLife base size reserved heap live) (h : heap.started = true) :
    ∃ entries, Session (KernelHeap.first base size reserved).buddy heap.buddy entries ∧
      entries.Perm (live.map Grant.entry) := by
  induction life with
  | unstarted => cases h
  | start life once ih =>
    obtain ⟨rfl, rfl⟩ := life.of_not_started once
    exact ⟨[], .start, .nil⟩
  | @serve heap live life request valid ih =>
    cases hstarted : heap.started with
    | false =>
      rw [KernelHeap.serve_of_not_started hstarted, hstarted] at h
      cases h
    | true =>
      obtain ⟨entries, session, hperm⟩ := ih hstarted
      rw [KernelHeap.serve_of_started hstarted]
      refine ⟨_, session.allocate request.blockRequest, ?_⟩
      -- Both lists record a grant in front, and nothing if there was no room.
      cases (heap.buddy.allocate request.blockRequest).1 with
      | none => exact hperm
      | some addr => exact hperm.cons _
  | @takeBack heap live life g owned ih =>
    cases hstarted : heap.started with
    | false =>
      rw [(life.of_not_started hstarted).2] at owned
      exact absurd owned List.not_mem_nil
    | true =>
      obtain ⟨entries, session, hperm⟩ := ih hstarted
      have hmem : g.entry ∈ entries := hperm.mem_iff.2 (List.mem_map_of_mem owned)
      refine ⟨entries.erase g.entry, ?_, ?_⟩
      · rw [KernelHeap.takeBack_of_started hstarted]
        exact session.deallocate g.addr g.request.blockRequest hmem
      · -- Two grants of one entry differ at most in their requests, so either may be erased.
        have hlive : (live.map Grant.entry).Perm (g.entry :: (live.erase g).map Grant.entry) :=
          (List.perm_cons_erase owned).map Grant.entry
        have hrest := (hperm.trans hlive).erase g.entry
        rwa [List.erase_cons_head] at hrest

/-! ## What a life keeps -/

/-- What is known of sessions holds of the heap from its start on. -/
theorem sound (life : HeapLife base size reserved heap live) (h : heap.started = true) :
    ∃ entries, entries.Perm (live.map Grant.entry) ∧
      Session.Sound (covered (KernelHeap.first base size reserved).buddy.free) heap.buddy
        entries := by
  obtain ⟨all, prepared, -, -⟩ := Prepared.empty.reserveAll reserved
  obtain ⟨entries, session, hperm⟩ := life.session h
  exact ⟨entries, hperm, session.sound (tiling_init _ base size) prepared.facts.allocated_eq⟩

theorem started_of_mem (life : HeapLife base size reserved heap live) {g : Grant} (hg : g ∈ live) :
    heap.started = true := by
  by_contra hstarted
  rw [(life.of_not_started (Bool.not_eq_true _ ▸ hstarted)).2] at hg
  exact List.not_mem_nil hg

/-- Free blocks and granted blocks tile the bytes that the heap was started with. -/
theorem tiling (life : HeapLife base size reserved heap live) (h : heap.started = true) :
    Tiling (heap.buddy.free ++ live.map Grant.block)
      (covered (KernelHeap.first base size reserved).buddy.free) := by
  obtain ⟨entries, hperm, sound⟩ := life.sound h
  exact sound.tiling.perm ((Grant.perm_blocks hperm).append_left _)

/-- A granted block is as large as what the buddy allocator was asked for. -/
theorem blockRequest_le (life : HeapLife base size reserved heap live) {g : Grant} (hg : g ∈ live) :
    g.request.blockRequest ≤ g.block.size := by
  obtain ⟨entries, hperm, sound⟩ := life.sound (life.started_of_mem hg)
  exact sound.size_le g.entry (hperm.mem_iff.2 (List.mem_map_of_mem hg))

theorem mem_blocks {g : Grant} (hg : g ∈ live) (free : List Block) :
    g.block ∈ free ++ live.map Grant.block :=
  List.mem_append_right _ (List.mem_map_of_mem hg)

theorem align_dvd (life : HeapLife base size reserved heap live) {g : Grant} (hg : g ∈ live) :
    g.request.align ∣ g.addr :=
  Grant.align_dvd_addr (life.valid g hg)
    ((life.tiling (life.started_of_mem hg)).aligned _ (mem_blocks hg _)) (life.blockRequest_le hg)

/-- The block of a grant has all the bytes that were asked for. -/
theorem bytes_subset (life : HeapLife base size reserved heap live) {g : Grant} (hg : g ∈ live) :
    Set.Ico g.addr (g.addr + g.request.size) ⊆ g.block.bytes := by
  have hsize := Nat.le_trans g.request.size_le_blockRequest (life.blockRequest_le hg)
  exact Set.Ico_subset_Ico_right (Nat.add_le_add_left hsize g.addr)

/-- A granted block lies in the region of the heap and in no accepted reservation. -/
theorem block_placed (life : HeapLife base size reserved heap live) {g : Grant} (hg : g ∈ live) :
    g.block.bytes ⊆ Set.Ico base (base + size) ∧
      ∀ r ∈ BuddyAllocator.empty.accepted reserved, Disjoint g.block.bytes (Set.Ico r.1 r.2) := by
  obtain ⟨all, prepared, -, haccepted⟩ := Prepared.empty.reserveAll reserved
  obtain ⟨hregion, hreserved⟩ := covered_init_subset prepared base size
  have hbytes : g.block.bytes ⊆ covered (KernelHeap.first base size reserved).buddy.free := by
    rw [← (life.tiling (life.started_of_mem hg)).covers]
    exact bytes_subset_covered (mem_blocks hg _)
  exact ⟨hbytes.trans hregion, fun r hr => (hreserved r (haccepted hr)).mono_left hbytes⟩

theorem blocks_disjoint (life : HeapLife base size reserved heap live) :
    live.Pairwise fun g g' => Disjoint g.block.bytes g'.block.bytes := by
  cases hstarted : heap.started with
  | false =>
    rw [(life.of_not_started hstarted).2]
    exact .nil
  | true =>
    have hdisjoint := (List.pairwise_append.1 (life.tiling hstarted).disjoint).2.1
    rwa [List.pairwise_map] at hdisjoint

end HeapLife

/-- The free bytes of `after` are those of `before` and, apart from them, the granted block. -/
def Grant.FreedBetween (g : Grant) (before after : KernelHeap) : Prop :=
  Disjoint (covered before.buddy.free) g.block.bytes ∧
    covered after.buddy.free = covered before.buddy.free ∪ g.block.bytes

namespace HeapLife

variable {base size : Nat} {reserved : List (Nat × Nat)} {heap : KernelHeap} {live : List Grant}

/-- A request takes the block of its grant from the free bytes. -/
theorem freedBetween_serve (life : HeapLife base size reserved heap live) {request : HeapRequest}
    (valid : request.Valid) {addr : Nat} (hserved : (heap.serve request).1 = some addr) :
    Grant.FreedBetween ⟨addr, request⟩ (heap.serve request).2 heap := by
  have later := life.serve request valid
  rw [hserved] at later
  have hstarted : heap.started = true := by
    by_contra hnot
    rw [KernelHeap.serve_of_not_started (Bool.not_eq_true _ ▸ hnot)] at hserved
    cases hserved
  have hlater := later.started_of_mem List.mem_cons_self
  -- Both heaps tile the same bytes; the later one has the new block among the granted ones.
  exact (later.tiling hlater).freed (life.tiling hstarted)

/-- A return gives the block of its grant back to the free bytes. -/
theorem freedBetween_takeBack (life : HeapLife base size reserved heap live) {g : Grant}
    (hg : g ∈ live) : g.FreedBetween heap (heap.takeBack g.addr g.request) := by
  have hstarted := life.started_of_mem hg
  have later := life.takeBack g hg
  have hlater : (heap.takeBack g.addr g.request).started = true := by
    rw [KernelHeap.takeBack_of_started hstarted]
  have hperm : (live.map Grant.block).Perm (g.block :: (live.erase g).map Grant.block) :=
    (List.perm_cons_erase hg).map Grant.block
  exact ((life.tiling hstarted).perm (hperm.append_left _)).freed (later.tiling hlater)

theorem takeBackAll (life : HeapLife base size reserved heap live) {grants : List Grant}
    (hperm : grants.Perm live) : HeapLife base size reserved (heap.takeBackAll grants) [] := by
  induction grants generalizing heap live with
  | nil =>
    rw [← hperm.nil_eq] at life
    exact life
  | cons g grants ih =>
    have hg : g ∈ live := hperm.mem_iff.1 List.mem_cons_self
    have hrest : grants.Perm (live.erase g) :=
      List.Perm.cons_inv (hperm.trans (List.perm_cons_erase hg))
    exact ih (life.takeBack g hg) hrest

/-- Two lives with the same live blocks have the same free ones. -/
theorem mem_free_iff {heap' : KernelHeap} {live' : List Grant}
    (life : HeapLife base size reserved heap live) (h : heap.started = true)
    (life' : HeapLife base size reserved heap' live') (h' : heap'.started = true)
    (hlive : ∀ b, b ∈ live.map Grant.block ↔ b ∈ live'.map Grant.block) (b : Block) :
    b ∈ heap.buddy.free ↔ b ∈ heap'.buddy.free := by
  obtain ⟨all, prepared, -, -⟩ := Prepared.empty.reserveAll reserved
  obtain ⟨entries, session, hperm⟩ := life.session h
  obtain ⟨entries', session', hperm'⟩ := life'.session h'
  refine session.mem_free_iff prepared session' (fun b => ?_) b
  rw [(Grant.perm_blocks hperm).mem_iff, (Grant.perm_blocks hperm').mem_iff]
  exact hlive b

theorem started_takeBackAll (h : heap.started = true) (grants : List Grant) :
    (heap.takeBackAll grants).started = true := by
  induction grants generalizing heap with
  | nil => exact h
  | cons g grants ih =>
    have hnext : (heap.takeBack g.addr g.request).started = true := by
      rw [KernelHeap.takeBack_of_started h]
    exact ih hnext

end HeapLife

/-- In every life of the heap: before its start each request is refused. A grant has the
    alignment and at least the bytes that were asked for, whichever interface it came through;
    its block lies in the region of the heap, in no accepted reservation and apart from the
    blocks of all other grants. A request takes exactly this block from the free bytes and its
    return gives exactly this block back, so when everything is returned, in any order, the
    free blocks are those that the heap was started with. -/
theorem heap_life_safe {base size : Nat} {reserved : List (Nat × Nat)} {heap : KernelHeap}
    {live : List Grant} (life : HeapLife base size reserved heap live) :
    (heap.started = false →
      live = [] ∧ ∀ request : HeapRequest, heap.serve request = (none, heap)) ∧
    (∀ g ∈ live, g.request.align ∣ g.addr ∧
      Set.Ico g.addr (g.addr + g.request.size) ⊆ g.block.bytes ∧
      g.block.bytes ⊆ Set.Ico base (base + size) ∧
      ∀ r ∈ BuddyAllocator.empty.accepted reserved, Disjoint g.block.bytes (Set.Ico r.1 r.2)) ∧
    (live.Pairwise fun g g' => Disjoint g.block.bytes g'.block.bytes) ∧
    (∀ request : HeapRequest, request.Valid → ∀ addr, (heap.serve request).1 = some addr →
      Grant.FreedBetween ⟨addr, request⟩ (heap.serve request).2 heap) ∧
    (∀ g ∈ live, g.FreedBetween heap (heap.takeBack g.addr g.request)) ∧
    (heap.started = true → ∀ grants : List Grant, grants.Perm live → ∀ b,
      b ∈ (heap.takeBackAll grants).buddy.free ↔
        b ∈ (KernelHeap.first base size reserved).buddy.free) := by
  refine ⟨?_, ?_, life.blocks_disjoint, ?_, ?_, ?_⟩
  · intro h
    exact ⟨(life.of_not_started h).2, KernelHeap.serve_of_not_started h⟩
  · intro g hg
    exact ⟨life.align_dvd hg, life.bytes_subset hg, life.block_placed hg⟩
  · intro request valid addr hserved
    exact life.freedBetween_serve valid hserved
  · intro g hg
    exact life.freedBetween_takeBack hg
  · intro h grants hperm
    have returned := life.takeBackAll hperm
    have first : HeapLife base size reserved (KernelHeap.first base size reserved) [] :=
      .start .unstarted rfl
    -- Neither has a live grant, and the live blocks fix the free ones.
    exact returned.mem_free_iff (HeapLife.started_takeBackAll h grants) first rfl fun b => Iff.rfl

/-- A heap around a reserved cache line that has granted 20 bytes at a multiple of 32, from a
    block that was split for them, and one page. -/
def sharedHeap : KernelHeap :=
  (((KernelHeap.first 0x1000 0x2000 [(0x2040, 0x2080)]).serve (.bytes ⟨20, 32⟩)).2.serve
    (.pages 100)).2

theorem sharedHeap_life :
    HeapLife 0x1000 0x2000 [(0x2040, 0x2080)] sharedHeap
      [⟨0x1000, .pages 100⟩, ⟨0x2000, .bytes ⟨20, 32⟩⟩] := by
  have refused : HeapLife 0x1000 0x2000 [(0x2040, 0x2080)] .unstarted [] :=
    HeapLife.unstarted.serve (.pages 1) (by decide)
  have started : HeapLife 0x1000 0x2000 [(0x2040, 0x2080)]
      (KernelHeap.first 0x1000 0x2000 [(0x2040, 0x2080)]) [] := refused.start rfl
  have bytes := started.serve (.bytes ⟨20, 32⟩) (by decide)
  have hbytes : ((KernelHeap.first 0x1000 0x2000 [(0x2040, 0x2080)]).serve
      (.bytes ⟨20, 32⟩)).1 = some 0x2000 := by decide +kernel
  rw [hbytes] at bytes
  have pages := bytes.serve (.pages 100) (by decide)
  have hpages : (((KernelHeap.first 0x1000 0x2000 [(0x2040, 0x2080)]).serve
      (.bytes ⟨20, 32⟩)).2.serve (.pages 100)).1 = some 0x1000 := by decide +kernel
  rw [hpages] at pages
  exact pages

/-- Bytes and a page from one heap, returned in the order in which they were granted. -/
theorem heap_life_safe_shared :
    32 ∣ 0x2000 ∧ pageSize ∣ 0x1000 ∧
    Disjoint (⟨0x1000, 8⟩ : Block).bytes (⟨0x2000, 1⟩ : Block).bytes ∧
    Disjoint (⟨0x2000, 1⟩ : Block).bytes (Set.Ico 0x2040 0x2080) ∧
    ∀ b, b ∈ (sharedHeap.takeBackAll
        [⟨0x2000, .bytes ⟨20, 32⟩⟩, ⟨0x1000, .pages 100⟩]).buddy.free ↔
      b ∈ (KernelHeap.first 0x1000 0x2000 [(0x2040, 0x2080)]).buddy.free := by
  have hpage : (⟨0x1000, .pages 100⟩ : Grant).block = ⟨0x1000, 8⟩ := by decide +kernel
  have hbytes : (⟨0x2000, .bytes ⟨20, 32⟩⟩ : Grant).block = ⟨0x2000, 1⟩ := by decide +kernel
  have haccepted : BuddyAllocator.empty.accepted [(0x2040, 0x2080)] = [(0x2040, 0x2080)] := by
    decide
  obtain ⟨-, hgrants, hdisjoint, -, -, hreturned⟩ := heap_life_safe sharedHeap_life
  rw [List.forall_mem_cons, List.forall_mem_singleton, hpage, hbytes, haccepted] at hgrants
  rw [List.pairwise_pair, hpage, hbytes] at hdisjoint
  obtain ⟨⟨hpageAlign, -⟩, hbytesAlign, -, -, hreserved⟩ := hgrants
  exact ⟨hbytesAlign, hpageAlign, hdisjoint, hreserved _ (List.mem_singleton.2 rfl),
    hreturned (by decide +kernel) _ (List.Perm.swap _ _ [])⟩

end TaskKernel
