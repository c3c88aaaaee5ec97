/-
  TaskKernel.Proofs.PageTable.Refinement

  Address spaces over one frame source are partial maps from pages to descriptors.
  Whatever calls were made, in whatever order and with whatever failures, the leaf of
  a page in a space is what the last call on that space wrote there, and no call
  shows in another space or outside its own range.
-/
import TaskKernel.Proofs.PageTable.Mapping

namespace TaskKernel

/-! ## Calls -/

/-- A request to map a range in the space with number `space`. -/
structure MapCall where
  space : Nat
  va : VirtAddr
  pa : PhysAddr
  size : Nat
  flags : Flags

instance (first : VirtAddr) (count : Nat) : DecidablePred (InPages first count) :=
  fun _ => inferInstanceAs (Decidable (_ ∧ _))

namespace MapCall

/-- Both ranges end at 2 ^ 48 at most and the flags leave the address field alone. -/
structure InBounds (c : MapCall) : Prop where
  va_le : c.va.toNat + c.size ≤ 2 ^ 48
  pa_le : c.pa.toNat + c.size ≤ 2 ^ 48
  flags_eq : c.flags.bits &&& descriptorAddressMask = 0

/-- Some byte of the range lies in the page of `va`. -/
def Touches (c : MapCall) (va : VirtAddr) : Prop :=
  ∃ byte, c.va.toNat ≤ byte ∧ byte < c.va.toNat + c.size ∧ byte / pageSize = va.frameNumber

/-- Address of the frame for the page of `va`: as far behind the start of the request as
    the page is, cut to the 48 bits that a descriptor holds. -/
def frame (c : MapCall) (va : VirtAddr) : Nat :=
  (c.pa.toNat / pageSize * pageSize + (va.frameNumber - c.va.frameNumber) * pageSize) % 2 ^ 48

/-- The descriptor for the page of `va`. -/
def descriptor (c : MapCall) (va : VirtAddr) : Descriptor :=
  ⟨BitVec.ofNat 64 (c.frame va) ||| c.flags.bits ||| Flags.page.bits ||| Flags.accessed.bits⟩

/-- Where `va` leads. -/
def target (c : MapCall) (va : VirtAddr) : PhysAddr :=
  ⟨BitVec.ofNat 64 (c.frame va + va.pageOffset)⟩

/-- A call that ended with a result has written its first so many pages. -/
inductive Wrote (c : MapCall) : Except MapError Unit → Nat → Prop
  | all {count : Nat} (pages : ∀ va, InPages c.va count va ↔ c.Touches va) :
      Wrote c (.ok ()) count
  | front {count : Nat} (pages : ∀ va, InPages c.va count va → c.Touches va)
      (rest : ∃ va, c.Touches va ∧ ¬ InPages c.va count va) :
      Wrote c (.error .outOfMemory) count
  | nothing : Wrote c (.error .invalidAttributes) 0

theorem Wrote.touches {c : MapCall} {result : Except MapError Unit} {count : Nat}
    (h : c.Wrote result count) {va : VirtAddr} (hin : InPages c.va count va) : c.Touches va := by
  cases h with
  | all pages => exact (pages va).1 hin
  | front pages _ => exact pages va hin
  | nothing =>
    obtain ⟨hle, hlt⟩ := hin
    omega

end MapCall

/-- Of the calls on space `i`, the latest that wrote the page of `va`; `history` has the
    latest call first, with the number of pages that each has written. -/
def lastCall (history : List (MapCall × Nat)) (i : Nat) (va : VirtAddr) : Option MapCall :=
  (history.find? fun entry => entry.1.space = i ∧ InPages entry.1.va entry.2 va).map (·.1)

theorem lastCall_cons (entry : MapCall × Nat) (history : List (MapCall × Nat)) (i : Nat)
    (va : VirtAddr) :
    lastCall (entry :: history) i va =
      if entry.1.space = i ∧ InPages entry.1.va entry.2 va then some entry.1
      else lastCall history i va := by
  by_cases h : entry.1.space = i ∧ InPages entry.1.va entry.2 va
  · rw [if_pos h, lastCall, List.find?_cons, decide_eq_true h]
    rfl
  · rw [if_neg h, lastCall, List.find?_cons, decide_eq_false h]
    rfl

/-! ## Runs -/

/-- The spaces made so far, by number, and the memory that they share. -/
structure SpaceSet (F : Type) where
  spaces : List AddressSpace
  memory : Memory F

namespace SpaceSet

variable {F : Type}

/-- Descriptor of the page of `va` in space `i`. -/
def leaf (s : SpaceSet F) (i : Nat) (va : VirtAddr) : Option Descriptor :=
  s.spaces[i]?.bind fun space => space.leaf s.memory.ram va

/-- Where `va` leads in space `i`. -/
def translate (s : SpaceSet F) (i : Nat) (va : VirtAddr) : Option PhysAddr :=
  s.spaces[i]?.bind fun space => space.translate s.memory.ram va

variable [FrameSource F]

/-- Makes one more space, if there is a frame for it. -/
def create (s : SpaceSet F) : SpaceSet F :=
  match AddressSpace.new s.memory with
  | (.error _, mem) => ⟨s.spaces, mem⟩
  | (.ok space, mem) => ⟨s.spaces ++ [space], mem⟩

/-- Serves a call on `space`. -/
def map (s : SpaceSet F) (c : MapCall) (space : AddressSpace) :
    Except MapError Unit × SpaceSet F :=
  let (result, space, mem) := space.map s.memory c.va c.pa c.size c.flags
  (result, ⟨s.spaces.set c.space space, mem⟩)

/-- `Run start log s` says that making spaces and mapping in them leads from `start` to `s`;
    `log` has the calls with their results, the latest first. -/
inductive Run (start : SpaceSet F) :
    List (MapCall × Except MapError Unit) → SpaceSet F → Prop
  | start : Run start [] start
  | create {log : List (MapCall × Except MapError Unit)} {s : SpaceSet F} (run : Run start log s) :
      Run start log s.create
  | map {log : List (MapCall × Except MapError Unit)} {s : SpaceSet F} (run : Run start log s)
      (c : MapCall) (bounds : c.InBounds) (space : AddressSpace)
      (found : s.spaces[c.space]? = some space) :
      Run start ((c, (s.map c space).1) :: log) (s.map c space).2

end SpaceSet

/-! ## One call -/

namespace MapCall

/-- The pages that a range of bytes touches, counted. -/
theorem inPages_pagesTouched_iff (c : MapCall) (hsize : c.size ≠ 0) (va : VirtAddr) :
    InPages c.va (AddressSpace.pagesTouched c.va c.size) va ↔ c.Touches va := by
  unfold InPages Touches AddressSpace.pagesTouched
  rw [Address.pageOffset_eq_mod]
  simp only [Address.frameNumber, pageSize]
  constructor
  · rintro ⟨hle, hlt⟩
    exact ⟨max c.va.toNat (va.toNat / 4096 * 4096), by omega, by omega, by omega⟩
  · rintro ⟨byte, hle, hlt, hpage⟩
    omega

theorem not_touches_of_size_eq_zero {c : MapCall} (hsize : c.size = 0) (va : VirtAddr) :
    ¬ c.Touches va := by
  rintro ⟨byte, hle, hlt, -⟩
  omega

/-- The descriptor field of an address is the frame that the page leads to. -/
theorem and_addressMask_eq_frame (c : MapCall) (va : VirtAddr) :
    (c.pa.pageDown.plus ((va.frameNumber - c.va.frameNumber) * pageSize)).raw &&&
      descriptorAddressMask = BitVec.ofNat 64 (c.frame va) := by
  have hdown : c.pa.pageDown.raw.toNat = c.pa.toNat / 4096 * 4096 := Address.toNat_pageDown c.pa
  apply BitVec.eq_of_toNat_eq
  show ((c.pa.pageDown.raw + BitVec.ofNat 64 _) &&& descriptorAddressMask).toNat = _
  rw [toNat_and_addressMask, BitVec.toNat_add, BitVec.toNat_ofNat, BitVec.toNat_ofNat, hdown,
    frame, pageSize]
  omega

theorem pageDescriptor_eq (c : MapCall) (va : VirtAddr) :
    pageDescriptor c.va.pageDown c.pa.pageDown c.flags va = c.descriptor va := by
  have hflags : (c.flags ||| Flags.page ||| Flags.accessed).bits =
      c.flags.bits ||| Flags.page.bits ||| Flags.accessed.bits := rfl
  rw [pageDescriptor, Address.frameNumber_pageDown, Descriptor.make, c.and_addressMask_eq_frame va,
    hflags, descriptor, ← BitVec.or_assoc, ← BitVec.or_assoc]

theorem isValid_descriptor (c : MapCall) (va : VirtAddr) : (c.descriptor va).isValid = true := by
  rw [← pageDescriptor_eq]
  exact Descriptor.isValid_of_isTable (isTable_page _ _)

/-- A descriptor keeps the flags of its call apart from the address. -/
theorem flags_disjoint {c : MapCall} (hflags : c.flags.bits &&& descriptorAddressMask = 0) :
    (c.flags ||| Flags.page ||| Flags.accessed).bits &&& descriptorAddressMask = 0 := by
  show (c.flags.bits ||| Flags.page.bits ||| Flags.accessed.bits) &&& descriptorAddressMask = 0
  rw [BitVec.and_or_distrib_right, BitVec.and_or_distrib_right, hflags]
  decide

theorem raw_address_descriptor {c : MapCall} (hflags : c.flags.bits &&& descriptorAddressMask = 0)
    (va : VirtAddr) : (c.descriptor va).address.raw = BitVec.ofNat 64 (c.frame va) := by
  rw [← pageDescriptor_eq, pageDescriptor, Descriptor.raw_address_make (flags_disjoint hflags),
    Address.frameNumber_pageDown, and_addressMask_eq_frame]

/-- The descriptor of a page leads to its frame. -/
theorem address_descriptor {c : MapCall} (bounds : c.InBounds) (va : VirtAddr) :
    (c.descriptor va).address.plus va.pageOffset = c.target va := by
  show Address.mk ((c.descriptor va).address.raw + BitVec.ofNat 64 va.pageOffset) = _
  rw [raw_address_descriptor bounds.flags_eq, ← BitVec.ofNat_add]
  rfl

end MapCall

/-- What a call has done to the spaces under `roots`: the pages it wrote have their new
    descriptors in `space`, and nothing else has changed. -/
structure Served {F : Type} [FrameSource F] (L : FrameLedger F) (roots : Set PhysAddr)
    (c : MapCall) (space : AddressSpace) (mem : Memory F) (written : Nat)
    (result : Except MapError Unit) (space' : AddressSpace) (mem' : Memory F) : Prop where
  root : space'.root = space.root
  carries : L.Carries mem' roots
  wrote : c.Wrote result written
  leaf : ∀ other : AddressSpace, other.root ∈ roots → ∀ va : VirtAddr, va.toNat < 2 ^ 48 →
    other.leaf mem'.ram va =
      if other.root = space.root ∧ InPages c.va written va then some (c.descriptor va)
      else other.leaf mem.ram va

namespace MapCall

variable {F : Type} [FrameSource F] {L : FrameLedger F} {roots : Set PhysAddr} {mem : Memory F}

/-- A call that is refused, or asks for nothing, leaves everything as it was. -/
theorem served_of_unchanged (h : L.Carries mem roots) (c : MapCall) (space : AddressSpace)
    {result : Except MapError Unit} (hwrote : c.Wrote result 0) :
    Served L roots c space mem 0 result space mem := by
  refine ⟨rfl, h, hwrote, ?_⟩
  intro other hother va hva
  rw [if_neg]
  rintro ⟨-, hle, hlt⟩
  omega

/-- What a run of pages has done, as the call that asked for it. -/
theorem served_of_mapped {c : MapCall} (bounds : c.InBounds) (hsize : c.size ≠ 0)
    {space space' : AddressSpace}
    {mem' : Memory F} {written : Nat} {result : Except MapError Unit}
    (mapped : Mapped L roots space mem c.va.pageDown c.pa.pageDown c.flags
      (AddressSpace.pagesTouched c.va c.size) written result space' mem') :
    Served L roots c space mem written result space' mem' := by
  have hpages (va : VirtAddr) : InPages c.va.pageDown written va ↔ InPages c.va written va := by
    unfold InPages
    rw [Address.frameNumber_pageDown]
  refine ⟨mapped.root, mapped.carries, ?_, ?_⟩
  · rcases mapped.outcome with ⟨rfl, rfl⟩ | ⟨rfl, hlt⟩
    · exact .all (c.inPages_pagesTouched_iff hsize)
    · refine .front (fun va hin => (c.inPages_pagesTouched_iff hsize va).1 ⟨hin.1, ?_⟩) ?_
      · have hlast := hin.2
        omega
      · -- The page that the call stopped at was asked for and not written.
        have hle := bounds.va_le
        obtain ⟨stop, hstop⟩ : ∃ va : VirtAddr, va.frameNumber = c.va.frameNumber + written := by
          apply Address.exists_frameNumber
          rw [AddressSpace.pagesTouched, Address.pageOffset_eq_mod, pageSize] at hlt
          unfold Address.frameNumber
          omega
        refine ⟨stop, (c.inPages_pagesTouched_iff hsize stop).1 ⟨by omega, by omega⟩, ?_⟩
        rintro ⟨-, hin⟩
        omega
  · intro other hother va hva
    split
    · next hin =>
      rw [mapped.inside other hother va hva hin.1 ((hpages va).2 hin.2), c.pageDescriptor_eq]
    · next hin =>
      exact mapped.outside other hother va hva fun h => hin ⟨h.1, (hpages va).1 h.2⟩

theorem served_map (h : L.Carries mem roots) {c : MapCall} (bounds : c.InBounds)
    (space : AddressSpace) (hspace : space.root ∈ roots) :
    ∃ written result space' mem', space.map mem c.va c.pa c.size c.flags =
      (result, space', mem') ∧ Served L roots c space mem written result space' mem' := by
  rw [AddressSpace.map]
  split
  · exact ⟨0, _, _, _, rfl, served_of_unchanged h c space .nothing⟩
  · split
    · next hsize =>
      refine ⟨0, _, _, _, rfl, served_of_unchanged h c space (.all fun va => ?_)⟩
      constructor
      · rintro ⟨hle, hlt⟩
        omega
      · intro htouch
        exact absurd htouch (not_touches_of_size_eq_zero hsize va)
    · next hsize =>
      have hrange : c.va.pageDown.toNat + AddressSpace.pagesTouched c.va c.size * pageSize ≤
          2 ^ 48 := by
        have hle := bounds.va_le
        rw [Address.toNat_pageDown, AddressSpace.pagesTouched, Address.pageOffset_eq_mod, pageSize]
        omega
      obtain ⟨written, result, space', mem', heq, mapped⟩ :=
        h.mapPages_mapped c.flags space hspace c.va.pageDown c.pa.pageDown hrange
      exact ⟨written, result, space', mem', heq, served_of_mapped bounds hsize mapped⟩

end MapCall

/-! ## One step -/

namespace SpaceSet

variable {F : Type} {s s' : SpaceSet F}

/-- Root table of space `i`. -/
def rootAt (s : SpaceSet F) (i : Nat) : Option PhysAddr := s.spaces[i]?.map (·.root)

/-- The root tables of all spaces. -/
def roots (s : SpaceSet F) : Set PhysAddr := {root | ∃ i, s.rootAt i = some root}

theorem leaf_eq (s : SpaceSet F) (i : Nat) (va : VirtAddr) :
    s.leaf i va = (s.rootAt i).bind fun root =>
      leafAt s.memory.ram root va.tablePath va.leafSlot := by
  rw [leaf, rootAt]
  cases s.spaces[i]? with
  | none => rfl
  | some space => exact space.leaf_eq_leafAt s.memory.ram va

/-- A space translates through its leaves. -/
theorem translate_eq (s : SpaceSet F) (i : Nat) (va : VirtAddr) :
    s.translate i va = (s.leaf i va).bind fun d =>
      if d.isValid then some (d.address.plus va.pageOffset) else none := by
  rw [translate, leaf]
  cases s.spaces[i]? with
  | none => rfl
  | some space =>
    rw [Option.bind_some, Option.bind_some, AddressSpace.translate]
    cases space.leaf s.memory.ram va <;> rfl

/-- The descriptor of a call leads to the frame of the call. -/
theorem translate_of_leaf {c : MapCall} (bounds : c.InBounds) {i : Nat} {va : VirtAddr}
    (hleaf : s.leaf i va = some (c.descriptor va)) : s.translate i va = some (c.target va) := by
  rw [translate_eq, hleaf, Option.bind_some, c.isValid_descriptor, if_pos rfl,
    MapCall.address_descriptor bounds]

/-- Where the leaf is the same, the address leads to the same place. -/
theorem translate_congr {i : Nat} {va : VirtAddr} (hleaf : s'.leaf i va = s.leaf i va) :
    s'.translate i va = s.translate i va := by
  rw [translate_eq, translate_eq, hleaf]

theorem leaf_of_sameLeaves (hroot : ∀ i, s'.rootAt i = s.rootAt i)
    (h : SameLeaves s.roots s.memory.ram s'.memory.ram) (i : Nat) (va : VirtAddr) :
    s'.leaf i va = s.leaf i va := by
  rw [leaf_eq, leaf_eq, hroot]
  cases hi : s.rootAt i with
  | none => rfl
  | some root => exact h root ⟨i, hi⟩ va.tablePath rfl va.leafSlot

theorem rootAt_append (s : SpaceSet F) (space : AddressSpace) (mem : Memory F) (i : Nat) :
    (⟨s.spaces ++ [space], mem⟩ : SpaceSet F).rootAt i =
      if i = s.spaces.length then some space.root else s.rootAt i := by
  rw [rootAt, rootAt]
  rcases Nat.lt_trichotomy i s.spaces.length with hlt | rfl | hgt
  · rw [List.getElem?_append_left hlt, if_neg (by omega)]
  · rw [List.getElem?_concat_length, if_pos rfl]
    rfl
  · have hnone : (s.spaces ++ [space])[i]? = none := by
      apply List.getElem?_eq_none
      rw [List.length_append, List.length_singleton]
      omega
    rw [hnone, List.getElem?_eq_none (by omega), if_neg (by omega)]

theorem rootAt_length (s : SpaceSet F) : s.rootAt s.spaces.length = none := by
  rw [rootAt, List.getElem?_eq_none (Nat.le_refl _)]
  rfl

theorem roots_append (s : SpaceSet F) (space : AddressSpace) (mem : Memory F) :
    (⟨s.spaces ++ [space], mem⟩ : SpaceSet F).roots = insert space.root s.roots := by
  ext root
  constructor
  · rintro ⟨i, hi⟩
    rw [rootAt_append] at hi
    split at hi
    · exact Or.inl (Option.some.inj hi).symm
    · exact Or.inr ⟨i, hi⟩
  · rintro (rfl | ⟨i, hi⟩)
    · exact ⟨s.spaces.length, by rw [rootAt_append, if_pos rfl]⟩
    · refine ⟨i, ?_⟩
      rw [rootAt_append, if_neg, hi]
      -- The new space has a number that no space had before.
      rintro rfl
      rw [rootAt_length] at hi
      cases hi

variable [FrameSource F] {L : FrameLedger F}

/-- Different spaces have different roots, and all tables are in order. -/
structure Sound (L : FrameLedger F) (s : SpaceSet F) : Prop where
  carries : L.Carries s.memory s.roots
  distinct {i j : Nat} {root : PhysAddr} : s.rootAt i = some root → s.rootAt j = some root → i = j

theorem Sound.start {mem : Memory F} (hvalid : L.valid mem.frames) :
    Sound L (⟨[], mem⟩ : SpaceSet F) := by
  have hroots : (⟨[], mem⟩ : SpaceSet F).roots = ∅ := by
    ext root
    simp [roots, rootAt]
  refine ⟨⟨hvalid, ?_⟩, ?_⟩
  · rw [hroots]
    exact forest_empty _ _
  · intro i j root hi
    simp [rootAt] at hi

theorem Sound.of_rootAt (h : s.Sound L) (hroot : ∀ i, s'.rootAt i = s.rootAt i)
    (hcarries : L.Carries s'.memory s.roots) : s'.Sound L := by
  have hroots : s'.roots = s.roots := by
    unfold roots
    simp only [hroot]
  refine ⟨?_, ?_⟩
  · rw [hroots]
    exact hcarries
  · intro i j root hi hj
    rw [hroot] at hi hj
    exact h.distinct hi hj

/-- Making a space keeps everything in order and shows in no leaf. -/
theorem Sound.create (h : s.Sound L) :
    s.create.Sound L ∧ ∀ i va, s.create.leaf i va = s.leaf i va := by
  rcases h.carries.new_cases with
    ⟨mem', heq, hcarries, hleaves⟩ | ⟨space, mem', heq, hfresh, hcarries, hleaves, hempty⟩
  · have hs : s.create = ⟨s.spaces, mem'⟩ := by rw [SpaceSet.create, heq]
    rw [hs]
    exact ⟨h.of_rootAt (fun _ => rfl) hcarries, leaf_of_sameLeaves (fun _ => rfl) hleaves⟩
  · have hs : s.create = ⟨s.spaces ++ [space], mem'⟩ := by rw [SpaceSet.create, heq]
    have hroot (i : Nat) := s.rootAt_append space mem' i
    rw [hs]
    refine ⟨⟨?_, ?_⟩, ?_⟩
    · rw [roots_append]
      exact hcarries
    · intro i j root hi hj
      rw [hroot] at hi hj
      split at hi
      · next hin =>
        cases hi
        split at hj
        · next hjn => rw [hin, hjn]
        · exact absurd ⟨j, hj⟩ hfresh
      · split at hj
        · cases hj
          exact absurd ⟨i, hi⟩ hfresh
        · exact h.distinct hi hj
    · intro i va
      rw [leaf_eq, leaf_eq, hroot]
      split
      · next hin =>
        rw [hin, rootAt_length, Option.bind_some, ← AddressSpace.leaf_eq_leafAt]
        exact hempty va
      · cases hi : s.rootAt i with
        | none => rfl
        | some root => exact hleaves root ⟨i, hi⟩ va.tablePath rfl va.leafSlot

/-- A call keeps everything in order, and the pages it wrote are the only ones that change. -/
theorem Sound.map (h : s.Sound L) {c : MapCall} (bounds : c.InBounds) {space : AddressSpace}
    (found : s.spaces[c.space]? = some space) :
    (s.map c space).2.Sound L ∧ ∃ written, c.Wrote (s.map c space).1 written ∧
      ∀ i va, va.toNat < 2 ^ 48 → (s.map c space).2.leaf i va =
        if i = c.space ∧ InPages c.va written va then some (c.descriptor va) else s.leaf i va := by
  have hspace : s.rootAt c.space = some space.root := by rw [rootAt, found]; rfl
  obtain ⟨written, result, space', mem', heq, served⟩ :=
    MapCall.served_map h.carries bounds space ⟨c.space, hspace⟩
  have hs : s.map c space = (result, ⟨s.spaces.set c.space space', mem'⟩) := by
    rw [SpaceSet.map, heq]
  have hroot (i : Nat) :
      (⟨s.spaces.set c.space space', mem'⟩ : SpaceSet F).rootAt i = s.rootAt i := by
    rw [rootAt, rootAt, List.getElem?_set]
    split
    · next heq =>
      subst heq
      obtain ⟨hlt, -⟩ := List.getElem?_eq_some_iff.1 found
      rw [if_pos hlt, found, Option.map_some, Option.map_some, served.root]
    · rfl
  rw [hs]
  refine ⟨h.of_rootAt hroot served.carries, written, served.wrote, ?_⟩
  intro i va hva
  rw [leaf_eq, leaf_eq, hroot]
  cases hi : s.rootAt i with
  | none =>
    rw [if_neg]
    · rfl
    · rintro ⟨rfl, -⟩
      rw [hspace] at hi
      cases hi
  | some root =>
    have hleaf := served.leaf ⟨root, 0⟩ ⟨i, hi⟩ va hva
    rw [AddressSpace.leaf_eq_leafAt, AddressSpace.leaf_eq_leafAt] at hleaf
    -- Roots tell spaces apart.
    have hsame : root = space.root ↔ i = c.space := by
      constructor
      · rintro rfl
        exact h.distinct hi hspace
      · rintro rfl
        rw [hspace] at hi
        exact (Option.some.inj hi).symm
    rw [Option.bind_some, Option.bind_some, hleaf]
    simp only [hsame]

/-! ## Runs refine partial maps -/

variable {start : SpaceSet F} {history : List (MapCall × Nat)}
  {log more : List (MapCall × Except MapError Unit)}

theorem Sound.run (h : start.Sound L) (run : Run start log s) : s.Sound L := by
  induction run with
  | start => exact h
  | create run ih => exact ih.create.1
  | map run c bounds space found ih => exact (ih.map bounds found).1

/-- `history` counts the pages that each call of `log` has written. -/
def Explains (history : List (MapCall × Nat)) (log : List (MapCall × Except MapError Unit)) :
    Prop :=
  List.Forall₂ (fun entry call => entry.1 = call.1 ∧ call.1.Wrote call.2 entry.2) history log

/-- `history` accounts for the spaces after the calls of `log`: below 2 ^ 48 the leaf of a
    page is the descriptor of the last call on that space that wrote the page, and the page
    leads to that call's frame. -/
structure Accounts (history : List (MapCall × Nat)) (log : List (MapCall × Except MapError Unit))
    (s : SpaceSet F) : Prop where
  explains : Explains history log
  leaf : ∀ i va, va.toNat < 2 ^ 48 →
    s.leaf i va = (lastCall history i va).map fun c => c.descriptor va
  translate : ∀ i va, va.toNat < 2 ^ 48 →
    s.translate i va = (lastCall history i va).map fun c => c.target va

/-- A new space changes nothing that the history tells. -/
theorem Accounts.create (h : Accounts history log s) (sound : s.Sound L) :
    Accounts history log s.create where
  explains := h.explains
  leaf i va hva := (sound.create.2 i va).trans (h.leaf i va hva)
  translate i va hva := (translate_congr (sound.create.2 i va)).trans (h.translate i va hva)

/-- A call adds one entry to the history, and the entries that are there stay. -/
theorem Accounts.map (h : Accounts history log s) (sound : s.Sound L) {c : MapCall}
    (bounds : c.InBounds) {space : AddressSpace} (found : s.spaces[c.space]? = some space) :
    ∃ written, Accounts ((c, written) :: history) ((c, (s.map c space).1) :: log)
      (s.map c space).2 := by
  obtain ⟨-, written, hwrote, hchange⟩ := sound.map bounds found
  refine ⟨written, .cons ⟨rfl, hwrote⟩ h.explains, fun i va hva => ?_, fun i va hva => ?_⟩
  -- Where the new call wrote, it is the last one; elsewhere nothing has changed.
  · rw [hchange i va hva, lastCall_cons]
    by_cases hin : c.space = i ∧ InPages c.va written va
    · rw [if_pos ⟨hin.1.symm, hin.2⟩, if_pos hin]
      rfl
    · rw [if_neg (fun h => hin ⟨h.1.symm, h.2⟩), if_neg hin]
      exact h.leaf i va hva
  · have hleaf := hchange i va hva
    rw [lastCall_cons]
    by_cases hin : c.space = i ∧ InPages c.va written va
    · rw [if_pos ⟨hin.1.symm, hin.2⟩] at hleaf
      rw [if_pos hin]
      exact translate_of_leaf bounds hleaf
    · rw [if_neg (fun h => hin ⟨h.1.symm, h.2⟩)] at hleaf
      rw [if_neg hin]
      exact (translate_congr hleaf).trans (h.translate i va hva)

/-- A history that accounts for the spaces at one point of a run goes on with the run. -/
theorem Accounts.run (h : Accounts history log s) (sound : s.Sound L) (run : Run s more s') :
    ∃ newer, Accounts (newer ++ history) (more ++ log) s' := by
  induction run with
  | start => exact ⟨[], h⟩
  | create run ih =>
    obtain ⟨newer, haccounts⟩ := ih
    exact ⟨newer, haccounts.create (sound.run run)⟩
  | map run c bounds space found ih =>
    obtain ⟨newer, haccounts⟩ := ih
    obtain ⟨written, hnext⟩ := haccounts.map (sound.run run) bounds found
    exact ⟨(c, written) :: newer, hnext⟩

end SpaceSet

/-! ## The main result -/

/-- After any run, the leaf of a page below 2 ^ 48 in a space is the descriptor of the last
    call on that space that wrote the page, and the page leads to that call's frame. The
    history that tells so is one for the whole run: whatever is served next adds its own
    entries to it, and how far the earlier calls came stays settled. A further call changes
    neither another space nor a page outside its range. -/
theorem spaces_refine_partial_maps {F : Type} [FrameSource F] (L : FrameLedger F)
    {mem : Memory F} (hvalid : L.valid mem.frames)
    {log : List (MapCall × Except MapError Unit)} {s : SpaceSet F}
    (run : SpaceSet.Run ⟨[], mem⟩ log s) :
    (∃ history, SpaceSet.Accounts history log s) ∧
    (∀ history, SpaceSet.Accounts history log s → ∀ more s', SpaceSet.Run s more s' →
      ∃ newer, SpaceSet.Accounts (newer ++ history) (more ++ log) s') ∧
    ∀ c space, s.spaces[c.space]? = some space → c.InBounds → ∀ i va, va.toNat < 2 ^ 48 →
      (i ≠ c.space ∨ ¬ c.Touches va) →
      (s.map c space).2.leaf i va = s.leaf i va ∧
      (s.map c space).2.translate i va = s.translate i va := by
  have sound := (SpaceSet.Sound.start hvalid).run run
  refine ⟨?_, fun history haccounts more s' later => haccounts.run sound later, ?_⟩
  · have nothing : SpaceSet.Accounts [] [] (⟨[], mem⟩ : SpaceSet F) :=
      ⟨.nil, fun _ _ _ => rfl, fun _ _ _ => rfl⟩
    obtain ⟨history, haccounts⟩ := nothing.run (.start hvalid) run
    rw [List.append_nil, List.append_nil] at haccounts
    exact ⟨history, haccounts⟩
  · intro c space found bounds i va hva hother
    obtain ⟨-, written, hwrote, hchange⟩ := sound.map bounds found
    have hsame : (s.map c space).2.leaf i va = s.leaf i va := by
      rw [hchange i va hva, if_neg]
      rintro ⟨rfl, hin⟩
      rcases hother with hne | htouch
      · exact hne rfl
      · exact htouch (hwrote.touches hin)
    exact ⟨hsame, SpaceSet.translate_congr hsame⟩

/-- A pool of eight frames over cleared memory. -/
def eightFrames : Memory FramePool := ⟨.zero, .ofPages 8⟩

/-- Two pages from address 1 on, to the last frame below 2 ^ 48 and the one after it. -/
def topFrameCall : MapCall := ⟨0, ⟨1⟩, ⟨0xffff_ffff_f000⟩, 4096, .userNormal⟩

/-- Two spaces, and that call served by the first of them. -/
def topFrameSpaces : SpaceSet FramePool :=
  ((⟨[], eightFrames⟩ : SpaceSet FramePool).create.create.map topFrameCall
    ⟨FramePool.pageAddr 0, 1⟩).2

theorem topFrameSpaces_run : SpaceSet.Run ⟨[], eightFrames⟩ [(topFrameCall, .ok ())] topFrameSpaces := by
  have empty : SpaceSet.Run ⟨[], eightFrames⟩ [] ⟨[], eightFrames⟩ := .start
  have bounds : topFrameCall.InBounds := ⟨by decide, by decide, by decide⟩
  have hresult : ((⟨[], eightFrames⟩ : SpaceSet FramePool).create.create.map topFrameCall
      ⟨FramePool.pageAddr 0, 1⟩).1 = .ok () := by decide +kernel
  have run := empty.create.create.map topFrameCall bounds ⟨FramePool.pageAddr 0, 1⟩
    (by decide +kernel)
  rw [hresult] at run
  exact run

theorem eightFrames_valid : FramePool.ledger.valid eightFrames.frames := by
  show FramePool.Fits _
  unfold FramePool.Fits
  decide

/-- The first space leads where the call says and the second one nowhere. -/
theorem spaces_refine_partial_maps_topFrame :
    topFrameSpaces.translate 0 ⟨0x1000⟩ = some (topFrameCall.target ⟨0x1000⟩) ∧
      topFrameSpaces.translate 1 ⟨0x1000⟩ = none := by
  obtain ⟨⟨history, haccounts⟩, -⟩ :=
    spaces_refine_partial_maps FramePool.ledger eightFrames_valid topFrameSpaces_run
  rw [haccounts.translate 0 ⟨0x1000⟩ (by decide), haccounts.translate 1 ⟨0x1000⟩ (by decide)]
  cases haccounts.explains with
  | @cons entry _ _ _ hentry hnil =>
    cases hnil
    obtain ⟨call, written⟩ := entry
    obtain ⟨rfl, hwrote⟩ : call = topFrameCall ∧ topFrameCall.Wrote (.ok ()) written :=
      hentry
    cases hwrote with
    | all pages =>
      have hin := (pages ⟨0x1000⟩).2 ⟨4096, by decide, by decide, by decide⟩
      have hspace : topFrameCall.space = 0 := rfl
      refine ⟨?_, ?_⟩
      · rw [lastCall_cons, if_pos ⟨hspace, hin⟩]
        rfl
      · rw [lastCall_cons, if_neg (fun h => absurd (hspace.symm.trans h.1) (by decide))]
        rfl

/-- The frame behind the last one below 2 ^ 48 does not fit a descriptor: the second page
    of the call leads to frame zero. -/
theorem topFrame_cut :
    FramePool.ledger.valid eightFrames.frames ∧ topFrameCall.InBounds ∧
      SpaceSet.Run ⟨[], eightFrames⟩ [(topFrameCall, .ok ())] topFrameSpaces ∧
      topFrameCall.Touches ⟨0x1000⟩ ∧
      topFrameSpaces.leaf 0 ⟨0x1000⟩ ≠ some ⟨(topFrameCall.pa.pageDown.plus 0x1000).raw |||
        topFrameCall.flags.bits ||| Flags.page.bits ||| Flags.accessed.bits⟩ ∧
      topFrameSpaces.translate 0 ⟨0x1000⟩ ≠ some (topFrameCall.pa.pageDown.plus 0x1000) := by
  refine ⟨eightFrames_valid, ⟨by decide, by decide, by decide⟩, topFrameSpaces_run,
    ⟨4096, by decide, by decide, by decide⟩, ?_, ?_⟩
  · decide +kernel
  · decide +kernel

end TaskKernel
