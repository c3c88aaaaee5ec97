/-
  TaskKernel.Proofs.Memory.Carving

  What the blocks are that a region is cut into at first: usable ones, in ascending
  order, and each so large that the block of twice its size is not usable any more.
-/
import TaskKernel.Proofs.Memory.Tiling

namespace TaskKernel

/-! ## Usable blocks -/

/-- No reserved range meets `[addr, addr + len)`. -/
theorem reservedEnd?_eq_none_iff {reserved : List (Nat × Nat)} {addr len : Nat} :
    reservedEnd? reserved addr len = none ↔
      ∀ r ∈ reserved, ¬ (addr < r.2 ∧ r.1 < addr + len) := by
  rw [reservedEnd?, Option.map_eq_none_iff, List.find?_eq_none]
  simp only [decide_eq_true_eq]

theorem Block.isUsable_iff {reserved : List (Nat × Nat)} {stop : Nat} {b : Block} :
    b.isUsable reserved stop = true ↔ b.Aligned ∧ b.addr + b.size ≤ stop ∧
      ∀ r ∈ reserved, ¬ (b.addr < r.2 ∧ r.1 < b.addr + b.size) := by
  rw [isUsable, Bool.and_eq_true, Bool.and_eq_true, beq_iff_eq, decide_eq_true_eq,
    Option.isNone_iff_eq_none, reservedEnd?_eq_none_iff, and_assoc]
  unfold Aligned
  rw [Nat.dvd_iff_mod_eq_zero]

/-- A usable block has no byte of a reserved range. -/
theorem Block.disjoint_of_isUsable {reserved : List (Nat × Nat)} {stop : Nat} {b : Block}
    (h : b.isUsable reserved stop = true) {r : Nat × Nat} (hr : r ∈ reserved) :
    Disjoint b.bytes (Set.Ico r.1 r.2) := by
  have hmiss := (isUsable_iff.1 h).2.2 r hr
  rw [Set.disjoint_left]
  rintro x ⟨hle, hlt⟩ ⟨hle', hlt'⟩
  exact hmiss ⟨by omega, by omega⟩

/-- A block of the largest usable size at its address. -/
structure Block.Maximal (reserved : List (Nat × Nat)) (stop : Nat) (b : Block) : Prop where
  usable : b.isUsable reserved stop = true
  order_le : b.order ≤ maxOrder
  not_double : b.order < maxOrder → (⟨b.addr, b.order + 1⟩ : Block).isUsable reserved stop = false

theorem maximal_largestOrder {reserved : List (Nat × Nat)} {stop addr order : Nat}
    (husable : (⟨addr, order⟩ : Block).isUsable reserved stop = true) (horder : order ≤ maxOrder) :
    Block.Maximal reserved stop ⟨addr, largestOrder reserved stop addr order⟩ := by
  fun_induction largestOrder reserved stop addr order with
  | case1 order hdouble ih => exact ih hdouble.2 hdouble.1
  | case2 order hstop =>
    refine ⟨husable, horder, fun hlt => ?_⟩
    rw [← Bool.not_eq_true]
    exact fun hdouble => hstop ⟨hlt, hdouble⟩

/-! ## Carving -/

/-- The blocks lie behind `addr`, one after the other, and none could be larger. -/
structure Carving (reserved : List (Nat × Nat)) (stop addr : Nat) (blocks : List Block) :
    Prop where
  addr_le : ∀ b ∈ blocks, addr ≤ b.addr
  maximal : ∀ b ∈ blocks, b.Maximal reserved stop
  ascending : blocks.Pairwise fun b c => b.addr + b.size ≤ c.addr

theorem minBlockSize_dvd_alignUp (value : Nat) : minBlockSize ∣ alignUp value minBlockSize :=
  Nat.dvd_mul_left _ _

theorem minBlockSize_dvd_blockSize (order : Nat) : minBlockSize ∣ blockSize order :=
  ⟨2 ^ order, blockSize_eq order⟩

theorem carving_carve {reserved : List (Nat × Nat)} {stop addr : Nat}
    (haddr : minBlockSize ∣ addr) :
    Carving reserved stop addr (carve reserved stop addr) := by
  fun_induction carve reserved stop addr with
  | case1 addr hfits skip hreserved hlt hle ih =>
    have carving := ih (minBlockSize_dvd_alignUp skip)
    refine ⟨fun b hb => ?_, carving.maximal, carving.ascending⟩
    have hbehind := carving.addr_le b hb
    omega
  | case2 addr hfits hfree hpos ih =>
    have husable : (⟨addr, 0⟩ : Block).isUsable reserved stop = true :=
      Block.isUsable_iff.2 ⟨haddr, hfits, reservedEnd?_eq_none_iff.1 hfree⟩
    have hmaximal := maximal_largestOrder husable (Nat.zero_le _)
    -- Only that it is maximal counts from here on.
    generalize largestOrder reserved stop addr 0 = order at hpos ih hmaximal
    have carving := ih (Nat.dvd_add haddr (minBlockSize_dvd_blockSize order))
    refine ⟨?_, ?_, ?_⟩
    · intro b hb
      rcases List.mem_cons.1 hb with rfl | hb
      · exact Nat.le_refl addr
      · have hbehind := carving.addr_le b hb
        omega
    · intro b hb
      rcases List.mem_cons.1 hb with rfl | hb
      · exact hmaximal
      · exact carving.maximal b hb
    · exact List.pairwise_cons.2 ⟨carving.addr_le, carving.ascending⟩
  | case3 addr hfull =>
    exact ⟨fun b hb => absurd hb List.not_mem_nil, fun b hb => absurd hb List.not_mem_nil, .nil⟩

namespace Carving

variable {reserved : List (Nat × Nat)} {stop addr : Nat} {blocks : List Block}

theorem tiling (h : Carving reserved stop addr blocks) : Tiling blocks (covered blocks) where
  aligned b hb := (Block.isUsable_iff.1 (h.maximal b hb).usable).1
  order_le b hb := (h.maximal b hb).order_le
  disjoint := by
    refine h.ascending.imp ?_
    intro b c hle
    rw [Set.disjoint_left]
    rintro x ⟨-, hlt⟩ ⟨hle', -⟩
    omega
  covers := rfl

/-- The carved bytes lie between the two ends and in no reserved range. -/
theorem covered_subset (h : Carving reserved stop addr blocks) :
    covered blocks ⊆ Set.Ico addr stop := by
  rintro x ⟨b, hb, hle, hlt⟩
  have haddr := h.addr_le b hb
  have hstop := (Block.isUsable_iff.1 (h.maximal b hb).usable).2.1
  exact ⟨by omega, by omega⟩

theorem disjoint_reserved (h : Carving reserved stop addr blocks) {r : Nat × Nat}
    (hr : r ∈ reserved) : Disjoint (covered blocks) (Set.Ico r.1 r.2) := by
  rw [Set.disjoint_left]
  rintro x ⟨b, hb, hx⟩ hxr
  exact Set.disjoint_left.1 (Block.disjoint_of_isUsable (h.maximal b hb).usable hr) hx hxr

end Carving

end TaskKernel
