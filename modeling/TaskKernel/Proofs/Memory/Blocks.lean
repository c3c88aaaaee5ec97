/-
  TaskKernel.Proofs.Memory.Blocks

  The geometry of naturally aligned blocks. Halving a block and joining two buddies
  are inverse to each other, and of two aligned blocks that share a byte the smaller
  lies inside the larger. Nothing here is about allocation.
-/
import TaskKernel.Memory.Buddy
import Mathlib.Algebra.Ring.Nat
import Mathlib.Data.Set.Lattice
import Mathlib.Order.CompletePartialOrder
import Mathlib.Order.Interval.Set.Basic

namespace TaskKernel

/-! ## Sizes -/

theorem blockSize_succ (order : Nat) : blockSize (order + 1) = blockSize order + blockSize order := by
  rw [blockSize, blockSize, Nat.shiftLeft_succ, Nat.two_mul]

theorem blockSize_eq (order : Nat) : blockSize order = minBlockSize * 2 ^ order :=
  Nat.shiftLeft_eq _ _

theorem blockSize_dvd {m n : Nat} (h : m ≤ n) : blockSize m ∣ blockSize n := by
  rw [blockSize_eq, blockSize_eq]
  exact Nat.mul_dvd_mul_left _ (Nat.pow_dvd_pow 2 h)

theorem blockSize_injective {m n : Nat} (h : blockSize m = blockSize n) : m = n := by
  rw [blockSize_eq, blockSize_eq] at h
  have hpow : 2 ^ m = 2 ^ n := Nat.eq_of_mul_eq_mul_left (by decide) h
  exact Nat.pow_right_injective (Nat.le_refl 2) hpow

theorem orderFor_le (size : Nat) : orderFor size ≤ maxOrder := by
  rw [orderFor]
  cases h : (List.range maxOrder).find? fun order => decide (size ≤ blockSize order) with
  | none => exact Nat.le_refl _
  | some order =>
    have hmem := List.mem_of_find?_eq_some h
    rw [List.mem_range] at hmem
    exact Nat.le_of_lt hmem

/-- The order chosen for a request is large enough, if any is. -/
theorem le_blockSize_orderFor {size : Nat} (h : size ≤ blockSize maxOrder) :
    size ≤ blockSize (orderFor size) := by
  rw [orderFor]
  cases hfind : (List.range maxOrder).find? fun order => decide (size ≤ blockSize order) with
  | none => exact h
  | some order =>
    have hle := List.find?_some hfind
    exact of_decide_eq_true hle

/-- No smaller order would do. -/
theorem orderFor_le_of_le {size order : Nat} (h : size ≤ blockSize order) :
    orderFor size ≤ order := by
  rw [orderFor]
  cases hfind : (List.range maxOrder).find? fun order => decide (size ≤ blockSize order) with
  | none =>
    by_contra hlt
    have hmem : order ∈ List.range maxOrder := List.mem_range.2 (Nat.lt_of_not_le hlt)
    exact List.find?_eq_none.1 hfind order hmem (decide_eq_true h)
  | some least =>
    rw [List.find?_range_eq_some] at hfind
    by_contra hlt
    have hnot := hfind.2.2 order (Nat.lt_of_not_le hlt)
    rw [decide_eq_true h] at hnot
    cases hnot

namespace Block

/-! ## Bytes and alignment -/

/-- The addresses that a block covers. -/
def bytes (b : Block) : Set Nat := Set.Ico b.addr (b.addr + b.size)

/-- A block that starts at a multiple of its size. -/
def Aligned (b : Block) : Prop := b.size ∣ b.addr

theorem mem_bytes {b : Block} {x : Nat} : x ∈ b.bytes ↔ b.addr ≤ x ∧ x < b.addr + b.size := Iff.rfl

theorem size_pos (b : Block) : 0 < b.size := blockSize_pos b.order

theorem addr_mem_bytes (b : Block) : b.addr ∈ b.bytes :=
  ⟨Nat.le_refl _, Nat.lt_add_of_pos_right b.size_pos⟩

/-- A block is known by its bytes. -/
theorem eq_of_bytes_eq {b c : Block} (h : b.bytes = c.bytes) : b = c := by
  have hb : b.addr ∈ c.bytes := h ▸ b.addr_mem_bytes
  have hc : c.addr ∈ b.bytes := h ▸ c.addr_mem_bytes
  have haddr : b.addr = c.addr := Nat.le_antisymm hc.1 hb.1
  have hbpos := b.size_pos
  have hcpos := c.size_pos
  -- First and last byte of each block lie in the other one.
  have hblast : b.addr + b.size - 1 ∈ c.bytes := by
    rw [← h, mem_bytes]
    omega
  have hclast : c.addr + c.size - 1 ∈ b.bytes := by
    rw [h, mem_bytes]
    omega
  rw [mem_bytes] at hblast hclast
  have hsize : b.size = c.size := by omega
  have horder := blockSize_injective hsize
  cases b
  cases c
  cases haddr
  cases horder
  rfl

/-- Of two aligned blocks that share a byte, the smaller lies inside the larger. -/
theorem bytes_subset_of_mem {b c : Block} (hb : b.Aligned) (hc : c.Aligned)
    (hle : c.order ≤ b.order) {x : Nat} (hxb : x ∈ b.bytes) (hxc : x ∈ c.bytes) :
    c.bytes ⊆ b.bytes := by
  have hdvd : c.size ∣ b.size := blockSize_dvd hle
  obtain ⟨n, hn⟩ := hdvd
  obtain ⟨p, hp⟩ : c.size ∣ b.addr := Nat.dvd_trans ⟨n, hn⟩ hb
  obtain ⟨q, hq⟩ := hc
  rw [mem_bytes, hn, hp, ← Nat.mul_add] at hxb
  rw [mem_bytes, hq, ← Nat.mul_succ] at hxc
  -- Counted in blocks of the smaller size, `b` reaches from `p` to `p + n` and `c` is `q`.
  have hpq : p < q + 1 := Nat.lt_of_mul_lt_mul_left (Nat.lt_of_le_of_lt hxb.1 hxc.2)
  have hqn : q < p + n := Nat.lt_of_mul_lt_mul_left (Nat.lt_of_le_of_lt hxc.1 hxb.2)
  have hlow : c.size * p ≤ c.size * q := Nat.mul_le_mul_left _ (by omega)
  have hhigh : c.size * (q + 1) ≤ c.size * (p + n) := Nat.mul_le_mul_left _ hqn
  intro y hy
  rw [mem_bytes, hq, ← Nat.mul_succ] at hy
  rw [mem_bytes, hn, hp, ← Nat.mul_add]
  exact ⟨Nat.le_trans hlow hy.1, Nat.lt_of_lt_of_le hy.2 hhigh⟩

/-! ## Halves -/

section Halves

variable (addr order : Nat)

theorem bytes_eq_halves :
    (⟨addr, order + 1⟩ : Block).bytes =
      (⟨addr, order⟩ : Block).bytes ∪ (⟨addr + blockSize order, order⟩ : Block).bytes := by
  ext x
  rw [Set.mem_union, mem_bytes, mem_bytes, mem_bytes]
  simp only [size, blockSize_succ]
  omega

theorem disjoint_halves :
    Disjoint (⟨addr, order⟩ : Block).bytes (⟨addr + blockSize order, order⟩ : Block).bytes := by
  rw [Set.disjoint_left]
  intro x hlow hhigh
  rw [mem_bytes] at hlow hhigh
  simp only [size] at hlow hhigh
  omega

variable {addr order}

theorem Aligned.lower (h : (⟨addr, order + 1⟩ : Block).Aligned) :
    (⟨addr, order⟩ : Block).Aligned :=
  Nat.dvd_trans (blockSize_dvd (Nat.le_succ order)) h

theorem Aligned.upper (h : (⟨addr, order + 1⟩ : Block).Aligned) :
    (⟨addr + blockSize order, order⟩ : Block).Aligned :=
  Nat.dvd_add h.lower (Nat.dvd_refl _)

end Halves

/-! ## Buddies -/

section Buddies

variable {addr order : Nat}

/-- An aligned block of the next order starts at an even multiple of this order's size. -/
theorem Aligned.eq_mul_even (h : (⟨addr, order + 1⟩ : Block).Aligned) :
    ∃ m, addr = blockSize order * (m + m) := by
  obtain ⟨m, hm⟩ := h
  refine ⟨m, ?_⟩
  rw [show addr = blockSize (order + 1) * m from hm, blockSize_succ, Nat.mul_add, Nat.add_mul]

theorem buddy_lower (h : (⟨addr, order + 1⟩ : Block).Aligned) :
    (⟨addr, order⟩ : Block).buddy = ⟨addr + blockSize order, order⟩ := by
  obtain ⟨m, hm⟩ := h.eq_mul_even
  have hdiv : addr / blockSize order = m + m := by
    rw [hm, Nat.mul_div_cancel_left _ (blockSize_pos order)]
  have heven : (m + m) % 2 = 0 := by omega
  show (if addr / blockSize order % 2 = 0 then _ else _) = _
  rw [hdiv, if_pos heven]
  rfl

theorem buddy_upper (h : (⟨addr, order + 1⟩ : Block).Aligned) :
    (⟨addr + blockSize order, order⟩ : Block).buddy = ⟨addr, order⟩ := by
  obtain ⟨m, hm⟩ := h.eq_mul_even
  have hdiv : (addr + blockSize order) / blockSize order = m + m + 1 := by
    rw [Nat.add_div_right _ (blockSize_pos order), hm,
      Nat.mul_div_cancel_left _ (blockSize_pos order)]
  have hodd : ¬ (m + m + 1) % 2 = 0 := by omega
  show (if (addr + blockSize order) / blockSize order % 2 = 0 then _ else _) = _
  rw [hdiv, if_neg hodd]
  show Block.mk (addr + blockSize order - blockSize order) order = _
  rw [Nat.add_sub_cancel]

theorem joined_lower (h : (⟨addr, order + 1⟩ : Block).Aligned) :
    (⟨addr, order⟩ : Block).joined = ⟨addr, order + 1⟩ := by
  rw [joined, buddy_lower h, Nat.min_eq_left (Nat.le_add_right _ _)]

theorem joined_upper (h : (⟨addr, order + 1⟩ : Block).Aligned) :
    (⟨addr + blockSize order, order⟩ : Block).joined = ⟨addr, order + 1⟩ := by
  rw [joined, buddy_upper h, Nat.min_eq_right (Nat.le_add_right _ _)]

end Buddies

/-- An aligned block is the lower or the upper half of an aligned block. -/
theorem half_cases {b : Block} (h : b.Aligned) :
    (⟨b.addr, b.order + 1⟩ : Block).Aligned ∨
      ∃ low, b = ⟨low + blockSize b.order, b.order⟩ ∧ (⟨low, b.order + 1⟩ : Block).Aligned := by
  obtain ⟨addr, order⟩ := b
  obtain ⟨q, hq⟩ : blockSize order ∣ addr := h
  -- Counted in blocks of its size, the block is an even or an odd one.
  by_cases heven : q % 2 = 0
  · left
    refine ⟨q / 2, ?_⟩
    show addr = blockSize (order + 1) * (q / 2)
    rw [blockSize_succ, Nat.add_mul, ← Nat.mul_add, hq]
    congr 1
    omega
  · right
    refine ⟨blockSize order * (q - 1), ?_, q / 2, ?_⟩
    · rw [← Nat.mul_succ, hq]
      congr 2
      omega
    · show blockSize order * (q - 1) = blockSize (order + 1) * (q / 2)
      rw [blockSize_succ, Nat.add_mul, ← Nat.mul_add]
      congr 1
      omega

@[simp] theorem buddy_order (b : Block) : b.buddy.order = b.order := by
  rw [buddy]
  split <;> rfl

theorem aligned_joined {b : Block} (h : b.Aligned) : b.joined.Aligned := by
  rcases half_cases h with hlow | ⟨low, hb, hlow⟩
  · rw [joined_lower hlow]
    exact hlow
  · rw [hb, joined_upper hlow]
    exact hlow

/-- A block and its buddy make up the joined block. -/
theorem bytes_joined {b : Block} (h : b.Aligned) : b.joined.bytes = b.bytes ∪ b.buddy.bytes := by
  rcases half_cases h with hlow | ⟨low, hb, hlow⟩
  · rw [joined_lower hlow, buddy_lower hlow, bytes_eq_halves]
  · rw [hb, joined_upper hlow, buddy_upper hlow, bytes_eq_halves, Set.union_comm]

theorem buddy_ne {b : Block} (h : b.Aligned) : b.buddy ≠ b := by
  have hpos := blockSize_pos b.order
  intro heq
  have haddr := congrArg addr heq
  rcases half_cases h with hlow | ⟨low, hb, hlow⟩
  · rw [buddy_lower hlow] at haddr
    simp only at haddr
    omega
  · rw [hb, buddy_upper hlow] at haddr
    simp only at haddr
    omega

theorem buddy_buddy {b : Block} (h : b.Aligned) : b.buddy.buddy = b := by
  rcases half_cases h with hlow | ⟨low, hb, hlow⟩
  · rw [buddy_lower hlow, buddy_upper hlow]
  · rw [hb, buddy_upper hlow, buddy_lower hlow]

end Block

end TaskKernel
