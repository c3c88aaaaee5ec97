/-
  TaskKernel.Proofs.Task.LaidOut

  The tree of a task that was built. Image, user stack and kernel stack are shown from end to
  end in their windows, nothing else is mapped, and the frames that were in other use hold
  what they held before.
-/
import TaskKernel.Proofs.PageTable.Confined
import TaskKernel.Proofs.Task.Layout

namespace TaskKernel

/-! ## Ranges that a tree shows -/

namespace MapCall

variable {c : MapCall} {ram : Ram}

/-- Every page of the range leads where the call says. -/
def Shown (c : MapCall) (ram : Ram) (root : PhysAddr) : Prop :=
  ∀ va : VirtAddr, va.toNat < 2 ^ 48 → c.Touches va → pageLeaf ram root va = some (c.descriptor va)

/-- A range that starts at a page boundary touches whole pages. -/
theorem Aligned.touches_iff (h : c.Aligned) (hsize : c.size ≠ 0) (va : VirtAddr) :
    c.Touches va ↔ c.va.toNat ≤ va.toNat ∧ va.toNat < c.va.toNat + pageRoundUp c.size := by
  have hva := h.va_aligned
  rw [Address.pageOffset_eq_mod] at hva
  unfold Touches Address.frameNumber
  simp only [pageRoundUp, pageSize]
  constructor
  · rintro ⟨byte, hle, hlt, hpage⟩
    omega
  · rintro ⟨hle, hlt⟩
    exact ⟨va.toNat / 4096 * 4096, by omega, by omega, by omega⟩

/-- Through the range the frames behind it are seen, byte for byte. -/
theorem Shown.translate {space : AddressSpace} (h : c.Shown ram space.root) (aligned : c.Aligned)
    (hsize : c.size ≠ 0) {i : Nat} (hi : i < pageRoundUp c.size) :
    space.translate ram (c.va.plus i) = some (c.pa.plus i) := by
  have hva := aligned.va_aligned
  have hle := aligned.va_le
  have hround : pageRoundUp c.size = (c.size + 4095) / 4096 * 4096 := by
    simp only [pageRoundUp, pageSize]
    omega
  rw [Address.pageOffset_eq_mod] at hva
  have hnat : (c.va.plus i).toNat = c.va.toNat + i := Address.toNat_plus_of_lt (by omega)
  have hleaf : space.leaf ram (c.va.plus i) = some (c.descriptor (c.va.plus i)) := by
    rw [AddressSpace.leaf_eq_leafAt]
    refine h _ (by omega) ((aligned.touches_iff hsize _).2 ?_)
    omega
  rw [AddressSpace.translate, hleaf]
  dsimp only
  rw [c.isValid_descriptor, if_pos rfl, address_descriptor aligned.inBounds, aligned.target_plus hi]

end MapCall

/-! ## Finished calls -/

/-- A call that has mapped its whole range, changed no leaf beside it and written to tables
    only. -/
structure MapCall.Finished {F : Type} [FrameSource F] (L : FrameLedger F) (roots : Set PhysAddr)
    (c : MapCall) (space : AddressSpace) (mem : Memory F) (space' : AddressSpace)
    (mem' : Memory F) : Prop where
  root : space'.root = space.root
  carries : L.Carries mem' roots
  confined : Confined L mem mem'
  inside : ∀ va : VirtAddr, va.toNat < 2 ^ 48 → c.Touches va →
    pageLeaf mem'.ram space.root va = some (c.descriptor va)
  outside : ∀ va : VirtAddr, va.toNat < 2 ^ 48 → ¬ c.Touches va →
    pageLeaf mem'.ram space.root va = pageLeaf mem.ram space.root va

theorem MapCall.finished_of_ok {F : Type} [FrameSource F] {L : FrameLedger F}
    {roots : Set PhysAddr} {mem mem' : Memory F} (hcarries : L.Carries mem roots) {c : MapCall}
    (bounds : c.InBounds) {space space' : AddressSpace} (hspace : space.root ∈ roots)
    (hok : space.map mem c.va c.pa c.size c.flags = (.ok (), space', mem')) :
    c.Finished L roots space mem space' mem' := by
  obtain ⟨_, _, _, _, heq, served⟩ := served_map hcarries bounds space hspace
  cases heq.symm.trans hok
  have hconfined := hcarries.map_confined bounds hspace
  rw [hok] at hconfined
  exact ⟨served.root, served.carries, hconfined,
    fun va hva => (served.pageLeaf_of_ok hspace hva).1,
    fun va hva => (served.pageLeaf_of_ok hspace hva).2⟩

/-! ## Layouts -/

theorem pageRoundUp_userStackSize : pageRoundUp Layout.userStackSize = Layout.userStackSize := by
  decide

theorem pageRoundUp_kernelStackSize :
    pageRoundUp Layout.kernelStackSize = Layout.kernelStackSize := by
  decide

/-- The tree of a task shows what the task holds, each in its window, and nothing else. -/
structure Holding.LaidOut (h : Holding) (ram : Ram) : Prop where
  image : h.imageCall.Shown ram h.root
  userStack : h.userStackCall.Shown ram h.root
  kernelStack : h.kernelStackCall.Shown ram h.root
  elsewhere : ∀ va : VirtAddr, va.toNat < 2 ^ 48 → ¬ h.imageCall.Touches va →
    ¬ h.userStackCall.Touches va → ¬ h.kernelStackCall.Touches va → pageLeaf ram h.root va = none

/-- The image ends below the stacks, so the windows are apart. -/
structure Holding.Spread (h : Holding) : Prop where
  placed : h.Placed
  some_image : h.imageSize ≠ 0
  below : pageRoundUp h.imageSize ≤ Layout.userStackWindow.toNat

namespace Holding.Spread

variable {h : Holding} (spread : h.Spread) {va : VirtAddr}

include spread

theorem touches_image : h.imageCall.Touches va ↔ va.toNat < pageRoundUp h.imageSize := by
  refine (spread.placed.imageCall_aligned.touches_iff spread.some_image va).trans ?_
  show 0 ≤ va.toNat ∧ va.toNat < 0 + pageRoundUp h.imageSize ↔ _
  omega

theorem touches_userStack : h.userStackCall.Touches va ↔ Layout.userStackWindow.toNat ≤ va.toNat ∧
    va.toNat < Layout.userStackWindow.toNat + Layout.userStackSize := by
  have htouch := spread.placed.userStackCall_aligned.touches_iff
    (show Layout.userStackSize ≠ 0 by decide) va
  have hround : pageRoundUp h.userStackCall.size = Layout.userStackSize := pageRoundUp_userStackSize
  rwa [hround] at htouch

theorem touches_kernelStack : h.kernelStackCall.Touches va ↔
    Layout.kernelStackWindow.toNat ≤ va.toNat ∧
      va.toNat < Layout.kernelStackWindow.toNat + Layout.kernelStackSize := by
  have htouch := spread.placed.kernelStackCall_aligned.touches_iff
    (show Layout.kernelStackSize ≠ 0 by decide) va
  have hround : pageRoundUp h.kernelStackCall.size = Layout.kernelStackSize :=
    pageRoundUp_kernelStackSize
  rwa [hround] at htouch

/-- A page belongs to one window at most. -/
theorem apart (va : VirtAddr) : (h.imageCall.Touches va → ¬ h.userStackCall.Touches va) ∧
    (h.imageCall.Touches va → ¬ h.kernelStackCall.Touches va) ∧
    (h.userStackCall.Touches va → ¬ h.kernelStackCall.Touches va) := by
  have hbelow := spread.below
  have hwindows := Layout.userStackWindow_below_kernelStackWindow
  rw [spread.touches_image, spread.touches_userStack, spread.touches_kernelStack]
  omega

end Holding.Spread

namespace Task

section

variable {F : Type} [FrameSource F] {L : FrameLedger F} {roots : Set PhysAddr} {mem mem' : Memory F}

/-- A layout is finished if its three calls are. -/
theorem mapLayout_ok {space space' : AddressSpace} {kernelStack userStack : Stack}
    {entry : VirtAddr} {imageSize : Nat}
    (h : mapLayout space mem kernelStack userStack entry imageSize = (.ok (), space', mem')) :
    ∃ space₁ mem₁ space₂ mem₂,
      space.map mem Layout.imageBase (LinearWindow.kernel.toPhys entry) imageSize .userNormal =
        (.ok (), space₁, mem₁) ∧
      space₁.map mem₁ Layout.userStackWindow userStack.base Layout.userStackSize .userNormal =
        (.ok (), space₂, mem₂) ∧
      space₂.map mem₂ Layout.kernelStackWindow kernelStack.base Layout.kernelStackSize
        .kernelData = (.ok (), space', mem') := by
  rw [mapLayout] at h
  split at h
  · cases h
  · next image =>
    split at h
    · cases h
    · next user => exact ⟨_, _, _, _, image, user, h⟩

/-- A finished layout of an empty tree. -/
theorem mapLayout_laidOut (hcarries : L.Carries mem roots) {space space' : AddressSpace}
    (hspace : space.root ∈ roots) {h : Holding} (spread : h.Spread)
    (hempty : ∀ va, pageLeaf mem.ram space.root va = none)
    (hok : mapLayout space mem h.kernelStack h.userStack h.entry h.imageSize =
      (.ok (), space', mem')) (hroot : h.root = space'.root) :
    h.LaidOut mem'.ram ∧ Confined L mem mem' := by
  obtain ⟨space₁, mem₁, space₂, mem₂, hmap₁, hmap₂, hmap₃⟩ := mapLayout_ok hok
  have image := MapCall.finished_of_ok hcarries spread.placed.imageCall_aligned.inBounds
    hspace hmap₁
  have hspace₁ : space₁.root ∈ roots := image.root ▸ hspace
  have user := MapCall.finished_of_ok image.carries spread.placed.userStackCall_aligned.inBounds
    hspace₁ hmap₂
  have hspace₂ : space₂.root ∈ roots := user.root ▸ hspace₁
  have kernel := MapCall.finished_of_ok user.carries spread.placed.kernelStackCall_aligned.inBounds
    hspace₂ hmap₃
  refine ⟨?_, image.confined.trans (user.confined.trans kernel.confined)⟩
  -- All three calls are about the one tree of the task.
  have hroot₂ : space₂.root = h.root := (hroot.trans kernel.root).symm
  have hroot₁ : space₁.root = h.root := user.root.symm.trans hroot₂
  have hroot₀ : space.root = h.root := image.root.symm.trans hroot₁
  have himage := hroot₀ ▸ image.inside
  have himage' := hroot₀ ▸ image.outside
  have huser := hroot₁ ▸ user.inside
  have huser' := hroot₁ ▸ user.outside
  have hkernel := hroot₂ ▸ kernel.inside
  have hkernel' := hroot₂ ▸ kernel.outside
  rw [hroot₀] at hempty
  refine ⟨fun va hva htouch => ?_, fun va hva htouch => ?_, hkernel,
    fun va hva hout₁ hout₂ hout₃ => ?_⟩
  · obtain ⟨hnotUser, hnotKernel, -⟩ := spread.apart va
    rw [hkernel' va hva (hnotKernel htouch), huser' va hva (hnotUser htouch), himage va hva htouch]
  · obtain ⟨-, -, hnotKernel⟩ := spread.apart va
    rw [hkernel' va hva (hnotKernel htouch), huser va hva htouch]
  · rw [hkernel' va hva hout₃, huser' va hva hout₂, himage' va hva hout₁, hempty]

theorem buildSpace_ok {kernelStack userStack : Stack} {entry : VirtAddr} {imageSize : Nat}
    {space : AddressSpace}
    (h : buildSpace mem kernelStack userStack entry imageSize = (.ok space, mem')) :
    ∃ space₁ mem₁, AddressSpace.new mem = (.ok space₁, mem₁) ∧
      mapLayout space₁ mem₁ kernelStack userStack entry imageSize = (.ok (), space, mem') := by
  rw [buildSpace] at h
  split at h
  · cases h
  · next space₁ mem₁ hnew =>
    split at h
    · cases h
    · next hlayout =>
      cases h
      exact ⟨space₁, mem₁, hnew, hlayout⟩

/-- A space that was built shows what it was built for. -/
theorem buildSpace_laidOut (hcarries : L.Carries mem roots) {h : Holding} (spread : h.Spread)
    {space : AddressSpace}
    (hok : buildSpace mem h.kernelStack h.userStack h.entry h.imageSize = (.ok space, mem'))
    (hroot : h.root = space.root) :
    h.LaidOut mem'.ram ∧ Confined L mem mem' := by
  obtain ⟨space₁, mem₁, hnew, hlayout⟩ := buildSpace_ok hok
  have hconfined := hcarries.new_confined
  rcases hcarries.new_cases with ⟨_, heq, -⟩ | ⟨_, _, heq, -, hcarries₁, -, hempty⟩
  · cases heq.symm.trans hnew
  · cases heq.symm.trans hnew
    rw [heq] at hconfined
    have hleaves (va : VirtAddr) : pageLeaf mem₁.ram space₁.root va = none :=
      (space₁.leaf_eq_leafAt mem₁.ram va).symm.trans (hempty va)
    obtain ⟨laidOut, hconfined'⟩ := mapLayout_laidOut hcarries₁ (Set.mem_insert _ roots) spread
      hleaves hlayout hroot
    exact ⟨laidOut, hconfined.trans hconfined'⟩

/-- A task that was built is laid out, and what stood in the frames in other use still does. -/
theorem build_laidOut {others : Set Nat} (hcarries : (L.besides others).Carries mem roots)
    {id : TaskId} {entry : VirtAddr} {imageSize : Nat}
    (image : Allocation.Placed ⟨LinearWindow.kernel.toPhys entry, pageRoundUp imageSize⟩)
    (hsize : imageSize ≠ 0) (hbelow : pageRoundUp imageSize ≤ Layout.userStackWindow.toNat)
    {task : Task} (hbuild : Task.build mem id entry imageSize = (.ok task, mem')) :
    task.holding.Spread ∧ task.holding.LaidOut mem'.ram ∧
      ∀ n ∈ others, mem'.ram.frame n = mem.ram.frame n := by
  cases build_end hbuild with
  | @built kernelBase userBase mem₁ mem₂ _ _ kernel user space holding =>
    obtain ⟨hkernel, placedKernel⟩ := hcarries.reserve kernel
    obtain ⟨huser, placedUser⟩ := hkernel.reserve user
    have spread : task.holding.Spread := by
      rw [holding]
      exact ⟨⟨⟨rfl, rfl⟩, image, placedKernel.placed, placedUser.placed⟩, hsize, hbelow⟩
    have hspace : buildSpace mem₂ task.holding.kernelStack task.holding.userStack
        task.holding.entry task.holding.imageSize = (.ok task.space, mem') := by
      rw [holding]
      exact space
    obtain ⟨laidOut, hconfined⟩ := buildSpace_laidOut huser spread hspace rfl
    refine ⟨spread, laidOut, fun n hn => ?_⟩
    -- The frame is in other use until the end, so no table is put there.
    rw [hconfined.same n fun hin => hin.2 (Or.inl (Or.inl hn)), ram_of_allocate user,
      ram_of_allocate kernel]

end

end Task

end TaskKernel
