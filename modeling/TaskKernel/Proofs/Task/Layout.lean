/-
  TaskKernel.Proofs.Task.Layout

  What the tree of a task leads to. Each leaf leads to the task's image, to one of its two
  stacks or to the page with the signal return code; user mode may write through the
  leaves of image and user stack only.
-/
import TaskKernel.Proofs.PageTable.Apart
import TaskKernel.Proofs.PageTable.Refinement
import TaskKernel.Proofs.Task.Footprint

namespace TaskKernel

/-! ## Leaves of a tree -/

/-- The last-level descriptor of `va` in the tree under `root`. -/
def pageLeaf (ram : Ram) (root : PhysAddr) (va : VirtAddr) : Option Descriptor :=
  leafAt ram root va.tablePath va.leafSlot

/-- Walks ignore all bits of an address from bit 48 on. -/
theorem exists_low_pageLeaf (va : VirtAddr) : ∃ low : VirtAddr, low.toNat < 2 ^ 48 ∧
    ∀ ram root, pageLeaf ram root va = pageLeaf ram root low := by
  have hlow : (⟨BitVec.ofNat 64 (va.toNat % 2 ^ 48)⟩ : VirtAddr).toNat = va.toNat % 2 ^ 48 := by
    show (BitVec.ofNat 64 (va.toNat % 2 ^ 48)).toNat = _
    rw [BitVec.toNat_ofNat]
    omega
  refine ⟨⟨BitVec.ofNat 64 (va.toNat % 2 ^ 48)⟩, by omega, fun ram root => ?_⟩
  -- The four indices are nine bits each, and the topmost ends below bit 48.
  have hindex (level : Nat) (hlevel : level ≤ 3) : va.tableIndex level =
      (⟨BitVec.ofNat 64 (va.toNat % 2 ^ 48)⟩ : VirtAddr).tableIndex level := by
    apply Fin.ext
    show va.toNat >>> (39 - 9 * level) % 512 = _ >>> (39 - 9 * level) % 512
    rw [hlow, Nat.shiftRight_eq_div_pow, Nat.shiftRight_eq_div_pow]
    obtain rfl | rfl | rfl | rfl : level = 0 ∨ level = 1 ∨ level = 2 ∨ level = 3 := by omega
    all_goals omega
  simp only [pageLeaf, Address.tablePath, Address.leafSlot, hindex 0 (by omega),
    hindex 1 (by omega), hindex 2 (by omega), hindex 3 (by omega)]

/-! ## Calls for whole pages -/

/-- The range starts at a page boundary and ends at 2 ^ 48 at most. -/
structure Allocation.Placed (a : Allocation) : Prop where
  aligned : a.base.pageOffset = 0
  below : a.base.toNat + pageRoundUp a.size ≤ 2 ^ 48

theorem Grantable.placed {held : Set Nat} {pa : PhysAddr} {size : Nat}
    (h : Grantable held pa size) : Allocation.Placed ⟨pa, size⟩ :=
  ⟨h.aligned, h.below⟩

namespace MapCall

/-- A call that maps pages from their start on to frames from their start on. -/
structure Aligned (c : MapCall) : Prop where
  va_aligned : c.va.pageOffset = 0
  va_le : c.va.toNat + c.size ≤ 2 ^ 48
  placed : Allocation.Placed ⟨c.pa, c.size⟩
  flags_eq : c.flags.bits &&& descriptorAddressMask = 0

variable {c : MapCall} {va : VirtAddr}

theorem Aligned.inBounds (h : c.Aligned) : c.InBounds where
  va_le := h.va_le
  pa_le := (Nat.add_le_add_left (le_pageRoundUp c.size) _).trans h.placed.below
  flags_eq := h.flags_eq

/-- The pages of such a call lead to the frames of its range. -/
theorem Aligned.frame_mem (h : c.Aligned) (htouch : c.Touches va) :
    (c.descriptor va).address.frameNumber ∈ framesFrom c.pa c.size := by
  obtain ⟨byte, hle, hlt, hpage⟩ := htouch
  -- The byte is as far into its page as its target is into a frame, both starts being aligned.
  have hva := h.va_aligned
  have hpa := h.placed.aligned
  have hbelow := h.placed.below
  have hcount := pageCount_mul c.size
  have hround := le_pageRoundUp c.size
  have hframe : (c.descriptor va).address.toNat = c.frame va % 2 ^ 64 := by
    show (c.descriptor va).address.raw.toNat = _
    rw [raw_address_descriptor h.flags_eq, BitVec.toNat_ofNat]
  rw [Address.pageOffset_eq_mod] at hva hpa
  rw [framesFrom, Set.mem_Ico]
  unfold Address.frameNumber at hpage ⊢
  rw [hframe, frame]
  unfold pageSize Address.frameNumber at *
  dsimp only at hpa hbelow
  omega

/-- So far into the range is so far behind its first frame. -/
theorem Aligned.target_plus (h : c.Aligned) {i : Nat} (hi : i < pageRoundUp c.size) :
    c.target (c.va.plus i) = c.pa.plus i := by
  have hva := h.va_aligned
  have hpa := h.placed.aligned
  have hle := h.va_le
  have hbelow : c.pa.toNat + pageRoundUp c.size ≤ 2 ^ 48 := h.placed.below
  have hround : pageRoundUp c.size ≤ 2 ^ 48 := by omega
  rw [Address.pageOffset_eq_mod] at hva hpa
  dsimp only at hpa
  have hnat : (c.va.plus i).toNat = c.va.toNat + i := Address.toNat_plus_of_lt (by omega)
  have hframe : c.frame (c.va.plus i) + (c.va.plus i).pageOffset = c.pa.toNat + i := by
    rw [frame, Address.pageOffset_eq_mod, Address.frameNumber, Address.frameNumber, hnat, pageSize]
    omega
  rw [target, hframe]
  show _ = Address.mk (c.pa.raw + BitVec.ofNat 64 i)
  rw [BitVec.ofNat_add]
  exact congrArg (fun raw => Address.mk (raw + BitVec.ofNat 64 i))
    (BitVec.ofNat_toNat 64 c.pa.raw |>.trans (BitVec.setWidth_eq _))

/-- The start of the range leads to the first frame. -/
theorem Aligned.target_start (h : c.Aligned) : c.target c.va = c.pa := by
  have hpos : 0 < pageRoundUp c.size := by
    rw [← pageCount_mul]
    exact Nat.mul_pos (pageCount_pos c.size) (by decide)
  have hstart := h.target_plus hpos
  rwa [Address.plus_zero, Address.plus_zero] at hstart

theorem Aligned.flags_descriptor (h : c.Aligned) (va : VirtAddr) :
    (c.descriptor va).flags = c.flags ||| .page ||| .accessed := by
  rw [← pageDescriptor_eq, pageDescriptor, Descriptor.flags_make (flags_disjoint h.flags_eq)]

end MapCall

/-! ## What a task may map -/

/-- User mode may write through the leaf. -/
def Descriptor.UserWritable (d : Descriptor) : Prop :=
  d.flags.contains .user = true ∧ d.flags.contains .readOnly = false

/-- What a leaf of a task may lead to, and with which rights. -/
inductive Holding.MayMap (trampoline : PhysAddr) (h : Holding) (d : Descriptor) : Prop
  | image (inside : d.address.frameNumber ∈ h.image.frames)
  | userStack (inside : d.address.frameNumber ∈ h.userStack.allocation.frames)
  | kernelStack (inside : d.address.frameNumber ∈ h.kernelStack.allocation.frames)
      (hidden : d.flags.contains .user = false)
  | trampoline (same : d.address.frameNumber = trampoline.frameNumber)
      (fixed : d.flags.contains .readOnly = true)

namespace Holding

/-- All that a task holds starts at page boundaries, and its stacks have their sizes. -/
structure Placed (h : Holding) : Prop where
  sized : h.Sized
  image : h.image.Placed
  kernelStack : h.kernelStack.allocation.Placed
  userStack : h.userStack.allocation.Placed

def imageCall (h : Holding) : MapCall :=
  ⟨0, Layout.imageBase, LinearWindow.kernel.toPhys h.entry, h.imageSize, .userNormal⟩

def userStackCall (h : Holding) : MapCall :=
  ⟨0, Layout.userStackWindow, h.userStack.base, Layout.userStackSize, .userNormal⟩

def kernelStackCall (h : Holding) : MapCall :=
  ⟨0, Layout.kernelStackWindow, h.kernelStack.base, Layout.kernelStackSize, .kernelData⟩

end Holding

def trampolineCall (trampoline : PhysAddr) : MapCall :=
  ⟨0, Layout.trampolineWindow, trampoline, pageSize, .userCodeReadOnly⟩

namespace Holding.Placed

variable {h : Holding} (placed : h.Placed) (trampoline : PhysAddr) {va : VirtAddr}

include placed

theorem imageCall_aligned : h.imageCall.Aligned := by
  have hbelow := placed.image.below
  rw [show h.image.size = pageRoundUp h.imageSize from rfl, pageRoundUp_pageRoundUp] at hbelow
  refine ⟨show Layout.imageBase.pageOffset = 0 by decide, ?_, ⟨placed.image.aligned, hbelow⟩,
    show Flags.userNormal.bits &&& descriptorAddressMask = 0 by decide⟩
  have hround := le_pageRoundUp h.imageSize
  show 0 + h.imageSize ≤ 2 ^ 48
  omega

theorem userStackCall_aligned : h.userStackCall.Aligned := by
  have hstack := placed.userStack
  rw [Stack.allocation, placed.sized.2] at hstack
  exact ⟨show Layout.userStackWindow.pageOffset = 0 by decide,
    show Layout.userStackWindow.toNat + Layout.userStackSize ≤ 2 ^ 48 by decide, hstack,
    show Flags.userNormal.bits &&& descriptorAddressMask = 0 by decide⟩

theorem kernelStackCall_aligned : h.kernelStackCall.Aligned := by
  have hstack := placed.kernelStack
  rw [Stack.allocation, placed.sized.1] at hstack
  exact ⟨show Layout.kernelStackWindow.pageOffset = 0 by decide,
    show Layout.kernelStackWindow.toNat + Layout.kernelStackSize ≤ 2 ^ 48 by decide, hstack,
    show Flags.kernelData.bits &&& descriptorAddressMask = 0 by decide⟩

theorem mayMap_imageCall (htouch : h.imageCall.Touches va) :
    h.MayMap trampoline (h.imageCall.descriptor va) := by
  refine .image ?_
  have hmem := placed.imageCall_aligned.frame_mem htouch
  rwa [← framesFrom_pageRoundUp] at hmem

theorem mayMap_userStackCall (htouch : h.userStackCall.Touches va) :
    h.MayMap trampoline (h.userStackCall.descriptor va) := by
  refine .userStack ?_
  have hmem := placed.userStackCall_aligned.frame_mem htouch
  rwa [show h.userStackCall.size = h.userStack.size from placed.sized.2.symm] at hmem

theorem mayMap_kernelStackCall (htouch : h.kernelStackCall.Touches va) :
    h.MayMap trampoline (h.kernelStackCall.descriptor va) := by
  refine .kernelStack ?_ ?_
  · have hmem := placed.kernelStackCall_aligned.frame_mem htouch
    rwa [show h.kernelStackCall.size = h.kernelStack.size from placed.sized.1.symm] at hmem
  · rw [placed.kernelStackCall_aligned.flags_descriptor]
    show (Flags.kernelData ||| .page ||| .accessed).contains .user = false
    decide

end Holding.Placed

/-- The page of the signal return code; its frame is below 2 ^ 48. -/
theorem trampolineCall_aligned {trampoline : PhysAddr} (haligned : trampoline.pageOffset = 0)
    (hbelow : trampoline.toNat < 2 ^ 48) : (trampolineCall trampoline).Aligned := by
  refine ⟨show Layout.trampolineWindow.pageOffset = 0 by decide,
    show Layout.trampolineWindow.toNat + pageSize ≤ 2 ^ 48 by decide, ⟨haligned, ?_⟩,
    show Flags.userCodeReadOnly.bits &&& descriptorAddressMask = 0 by decide⟩
  rw [Address.pageOffset_eq_mod] at haligned
  show trampoline.toNat + pageRoundUp pageSize ≤ 2 ^ 48
  rw [show pageRoundUp pageSize = 4096 by decide]
  omega

theorem trampolineCall_touches_iff (trampoline : PhysAddr) (va : VirtAddr) :
    (trampolineCall trampoline).Touches va ↔
      va.frameNumber = Layout.trampolineWindow.frameNumber := by
  have hwindow : Layout.trampolineWindow.toNat = 281474976686080 := by decide
  show (∃ byte, Layout.trampolineWindow.toNat ≤ byte ∧
    byte < Layout.trampolineWindow.toNat + pageSize ∧ byte / pageSize = va.frameNumber) ↔ _
  rw [show Layout.trampolineWindow.frameNumber = Layout.trampolineWindow.toNat / 4096 from rfl,
    hwindow, pageSize]
  constructor
  · rintro ⟨byte, hle, hlt, hpage⟩
    omega
  · intro hpage
    exact ⟨281474976686080, by omega, by omega, by omega⟩

/-- The page of the signal return code is not that of the kernel stack. -/
theorem not_touches_kernelStackWindow (trampoline : PhysAddr) :
    ¬ (trampolineCall trampoline).Touches Layout.kernelStackWindow := by
  rw [trampolineCall_touches_iff]
  decide

theorem Holding.mayMap_trampolineCall (h : Holding) {trampoline : PhysAddr}
    (haligned : trampoline.pageOffset = 0) (hbelow : trampoline.toNat < 2 ^ 48) {va : VirtAddr}
    (htouch : (trampolineCall trampoline).Touches va) :
    h.MayMap trampoline ((trampolineCall trampoline).descriptor va) := by
  have aligned := trampolineCall_aligned haligned hbelow
  refine .trampoline ?_ ?_
  · have hmem := aligned.frame_mem htouch
    rwa [show framesFrom (trampolineCall trampoline).pa (trampolineCall trampoline).size =
      {trampoline.frameNumber} from framesFrom_pageSize trampoline] at hmem
  · rw [aligned.flags_descriptor]
    show (Flags.userCodeReadOnly ||| .page ||| .accessed).contains .readOnly = true
    decide

/-! ## Laying out a tree -/

section

variable {F : Type} [FrameSource F] {L : FrameLedger F} {roots : Set PhysAddr} {root : PhysAddr}
  {P : Descriptor → Prop} {mem mem₁ mem' : Memory F}

/-- On the way from `mem` to `mem'` the tree under `root` got leaves with the property `P`
    only, and the other trees kept theirs. -/
structure Relaid (L : FrameLedger F) (roots : Set PhysAddr) (root : PhysAddr)
    (P : Descriptor → Prop) (mem mem' : Memory F) : Prop where
  carries : L.Carries mem' roots
  others : ∀ r ∈ roots, r ≠ root → ∀ va : VirtAddr, va.toNat < 2 ^ 48 →
    pageLeaf mem'.ram r va = pageLeaf mem.ram r va
  own : ∀ va : VirtAddr, va.toNat < 2 ^ 48 → ∀ d, pageLeaf mem'.ram root va = some d →
    P d ∨ pageLeaf mem.ram root va = some d

theorem Relaid.trans (h : Relaid L roots root P mem mem₁) (h' : Relaid L roots root P mem₁ mem') :
    Relaid L roots root P mem mem' where
  carries := h'.carries
  others r hr hne va hva := (h'.others r hr hne va hva).trans (h.others r hr hne va hva)
  own va hva d hleaf := (h'.own va hva d hleaf).elim Or.inl (h.own va hva d)

/-- What a call does to the leaves of every tree. -/
theorem Served.pageLeaf_eq {c : MapCall} {space space' : AddressSpace} {written : Nat}
    {result : Except MapError Unit} (served : Served L roots c space mem written result space' mem')
    {r : PhysAddr} (hr : r ∈ roots) {va : VirtAddr} (hva : va.toNat < 2 ^ 48) :
    pageLeaf mem'.ram r va =
      if r = space.root ∧ InPages c.va written va then some (c.descriptor va)
      else pageLeaf mem.ram r va := by
  have hleaf := served.leaf ⟨r, 0⟩ hr va hva
  rwa [AddressSpace.leaf_eq_leafAt, AddressSpace.leaf_eq_leafAt] at hleaf

theorem Served.relaid {c : MapCall} {space space' : AddressSpace} {written : Nat}
    {result : Except MapError Unit} (served : Served L roots c space mem written result space' mem')
    (hspace : space.root ∈ roots) (hnew : ∀ va, c.Touches va → P (c.descriptor va)) :
    Relaid L roots space.root P mem mem' where
  carries := served.carries
  others r hr hne va hva := by
    rw [served.pageLeaf_eq hr hva, if_neg fun hin => hne hin.1]
  own va hva d hd := by
    rw [served.pageLeaf_eq hspace hva] at hd
    split at hd
    · next hin =>
      cases hd
      exact Or.inl (hnew va (served.wrote.touches hin.2))
    · exact Or.inr hd

/-- A finished call has written every page of its range and no other. -/
theorem Served.pageLeaf_of_ok {c : MapCall} {space space' : AddressSpace} {written : Nat}
    (served : Served L roots c space mem written (.ok ()) space' mem')
    (hspace : space.root ∈ roots) {va : VirtAddr} (hva : va.toNat < 2 ^ 48) :
    (c.Touches va → pageLeaf mem'.ram space.root va = some (c.descriptor va)) ∧
    (¬ c.Touches va → pageLeaf mem'.ram space.root va = pageLeaf mem.ram space.root va) := by
  have hwrote := served.wrote
  cases hwrote with
  | all pages =>
    rw [served.pageLeaf_eq hspace hva]
    refine ⟨fun htouch => if_pos ⟨rfl, (pages va).2 htouch⟩, fun hout => if_neg fun hin => ?_⟩
    exact hout ((pages va).1 hin.2)

/-- A layout leads to what its task may map, also if it is cut short; a finished one shows
    the kernel stack in its window. -/
theorem Task.mapLayout_relaid (hcarries : L.Carries mem roots) {space : AddressSpace}
    (hspace : space.root ∈ roots) {h : Holding} (placed : h.Placed) (trampoline : PhysAddr) :
    ∃ result space' mem', Task.mapLayout space mem h.kernelStack h.userStack h.entry h.imageSize =
        (result, space', mem') ∧ space'.root = space.root ∧
      Relaid L roots space.root (h.MayMap trampoline) mem mem' ∧
      (result = .ok () → pageLeaf mem'.ram space.root Layout.kernelStackWindow =
        some (h.kernelStackCall.descriptor Layout.kernelStackWindow)) := by
  -- Three calls in a row, each of which may be cut short.
  obtain ⟨_, result₁, space₁, mem₁, heq₁, image⟩ :=
    MapCall.served_map hcarries placed.imageCall_aligned.inBounds space hspace
  have imageRelaid := image.relaid hspace fun va => placed.mayMap_imageCall trampoline
  have heq₁ : space.map mem Layout.imageBase (LinearWindow.kernel.toPhys h.entry) h.imageSize
    .userNormal = (result₁, space₁, mem₁) := heq₁
  rw [Task.mapLayout, heq₁]
  cases result₁ with
  | error e => exact ⟨_, _, _, rfl, image.root, imageRelaid, by rintro ⟨⟩⟩
  | ok _ =>
    have hspace₁ : space₁.root ∈ roots := image.root.symm ▸ hspace
    obtain ⟨_, result₂, space₂, mem₂, heq₂, user⟩ :=
      MapCall.served_map image.carries placed.userStackCall_aligned.inBounds space₁ hspace₁
    have userRelaid := user.relaid hspace₁ fun va => placed.mayMap_userStackCall trampoline
    rw [image.root] at userRelaid
    have heq₂ : space₁.map mem₁ Layout.userStackWindow h.userStack.base Layout.userStackSize
      .userNormal = (result₂, space₂, mem₂) := heq₂
    dsimp only
    rw [heq₂]
    cases result₂ with
    | error e =>
      exact ⟨_, _, _, rfl, user.root.trans image.root, imageRelaid.trans userRelaid, by rintro ⟨⟩⟩
    | ok _ =>
      have hspace₂ : space₂.root ∈ roots := user.root.symm ▸ hspace₁
      obtain ⟨_, result₃, space₃, mem₃, heq₃, kernel⟩ :=
        MapCall.served_map user.carries placed.kernelStackCall_aligned.inBounds space₂ hspace₂
      have kernelRelaid := kernel.relaid hspace₂ fun va => placed.mayMap_kernelStackCall trampoline
      have hroot := user.root.trans image.root
      rw [hroot] at kernelRelaid
      refine ⟨_, _, _, heq₃, kernel.root.trans hroot,
        (imageRelaid.trans userRelaid).trans kernelRelaid, ?_⟩
      rintro rfl
      rw [← hroot]
      refine (kernel.pageLeaf_of_ok hspace₂ (by decide)).1 ⟨_, Nat.le_refl _, ?_, rfl⟩
      show Layout.kernelStackWindow.toNat <
        Layout.kernelStackWindow.toNat + Layout.kernelStackSize
      decide

end

end TaskKernel
