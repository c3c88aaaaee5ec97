/-
  TaskKernel.Proofs.Memory.Tiling

  A tiling cuts a set of addresses into aligned blocks that do not overlap. Whatever
  an allocator does to its blocks is a replacement of some of them by others that
  cover the same addresses: a split replaces one block by two, a join two by one.
-/
import TaskKernel.Proofs.Memory.Blocks
import Mathlib.Data.List.Pairwise
import Mathlib.Data.List.Perm.Basic

namespace TaskKernel

/-- The addresses that some block of the list covers. -/
def covered (blocks : List Block) : Set Nat := {x | ∃ b ∈ blocks, x ∈ b.bytes}

/-- The blocks are aligned, do not overlap, and cover exactly `region`. -/
structure Tiling (blocks : List Block) (region : Set Nat) : Prop where
  aligned : ∀ b ∈ blocks, b.Aligned
  order_le : ∀ b ∈ blocks, b.order ≤ maxOrder
  disjoint : blocks.Pairwise fun b c => Disjoint b.bytes c.bytes
  covers : covered blocks = region

/-! ## Covered addresses -/

theorem mem_covered {blocks : List Block} {x : Nat} :
    x ∈ covered blocks ↔ ∃ b ∈ blocks, x ∈ b.bytes := Iff.rfl

@[simp] theorem covered_nil : covered [] = ∅ := by
  ext x
  simp [mem_covered]

@[simp] theorem covered_cons (b : Block) (blocks : List Block) :
    covered (b :: blocks) = b.bytes ∪ covered blocks := by
  ext x
  simp [mem_covered]

@[simp] theorem covered_append (blocks others : List Block) :
    covered (blocks ++ others) = covered blocks ∪ covered others := by
  ext x
  simp [mem_covered, or_and_right, exists_or]

theorem bytes_subset_covered {blocks : List Block} {b : Block} (h : b ∈ blocks) :
    b.bytes ⊆ covered blocks :=
  fun _ hx => ⟨b, h, hx⟩

theorem covered_perm {blocks blocks' : List Block} (h : blocks.Perm blocks') :
    covered blocks = covered blocks' := by
  ext x
  simp only [mem_covered, h.mem_iff]

namespace Tiling

variable {blocks blocks' rest : List Block} {region : Set Nat}

theorem perm (h : Tiling blocks region) (hperm : blocks.Perm blocks') : Tiling blocks' region where
  aligned b hb := h.aligned b (hperm.mem_iff.2 hb)
  order_le b hb := h.order_le b (hperm.mem_iff.2 hb)
  disjoint := (hperm.pairwise_iff fun h => h.symm).1 h.disjoint
  covers := by
    rw [← covered_perm hperm]
    exact h.covers

/-- Two blocks of a tiling that share an address are one block. -/
theorem eq_of_mem (h : Tiling blocks region) {b c : Block} (hb : b ∈ blocks) (hc : c ∈ blocks)
    {x : Nat} (hxb : x ∈ b.bytes) (hxc : x ∈ c.bytes) : b = c := by
  have hsymm : Std.Symm fun b c : Block => Disjoint b.bytes c.bytes := ⟨fun _ _ h => h.symm⟩
  by_contra hne
  exact Set.disjoint_left.1 (h.disjoint.forall hb hc hne) hxb hxc

/-- The covered addresses of the two parts of a tiling do not overlap. -/
theorem disjoint_append (h : Tiling (blocks ++ rest) region) :
    Disjoint (covered blocks) (covered rest) := by
  rw [Set.disjoint_left]
  rintro x ⟨b, hb, hxb⟩ ⟨c, hc, hxc⟩
  have hcross := (List.pairwise_append.1 h.disjoint).2.2 b hb c hc
  exact Set.disjoint_left.1 hcross hxb hxc

/-- What the first part of a tiling covers is what the second leaves of the region. -/
theorem covered_eq_diff (h : Tiling (blocks ++ rest) region) :
    covered blocks = region \ covered rest := by
  have hdisjoint := h.disjoint_append
  rw [← h.covers, covered_append]
  ext x
  rw [Set.mem_sdiff, Set.mem_union]
  constructor
  · exact fun hx => ⟨Or.inl hx, fun hx' => Set.disjoint_left.1 hdisjoint hx hx'⟩
  · exact fun hx => hx.1.resolve_right hx.2

/-- Where one tiling has a block among its first part that another has among its second, the
    first part covers these addresses and no others besides. -/
theorem freed {b : Block} (h : Tiling (blocks ++ b :: rest) region)
    (h' : Tiling (blocks' ++ rest) region) :
    Disjoint (covered blocks) b.bytes ∧ covered blocks' = covered blocks ∪ b.bytes := by
  have hmoved : Tiling ((b :: blocks) ++ rest) region := h.perm List.perm_middle
  refine ⟨?_, ?_⟩
  · have hdisjoint := h.disjoint_append
    rw [covered_cons] at hdisjoint
    exact hdisjoint.mono_right Set.subset_union_left
  · rw [h'.covered_eq_diff, ← hmoved.covered_eq_diff, covered_cons, Set.union_comm]

theorem left (h : Tiling (blocks ++ rest) region) : Tiling blocks (covered blocks) where
  aligned b hb := h.aligned b (List.mem_append_left _ hb)
  order_le b hb := h.order_le b (List.mem_append_left _ hb)
  disjoint := (List.pairwise_append.1 h.disjoint).1
  covers := rfl

/-! ## Replacing blocks -/

/-- Some blocks are replaced by others that cover the same addresses. -/
theorem replace (h : Tiling (blocks ++ rest) region) {region' : Set Nat}
    (h' : Tiling blocks' region') (hregion : region' = covered blocks) :
    Tiling (blocks' ++ rest) region := by
  refine ⟨?_, ?_, ?_, ?_⟩
  · intro b hb
    rcases List.mem_append.1 hb with hnew | hold
    · exact h'.aligned b hnew
    · exact h.aligned b (List.mem_append_right _ hold)
  · intro b hb
    rcases List.mem_append.1 hb with hnew | hold
    · exact h'.order_le b hnew
    · exact h.order_le b (List.mem_append_right _ hold)
  · refine List.pairwise_append.2 ⟨h'.disjoint, (List.pairwise_append.1 h.disjoint).2.1, ?_⟩
    -- A new block meets one of the rest only where an old one did.
    intro b hb c hc
    rw [Set.disjoint_left]
    intro x hxb hxc
    have hx : x ∈ covered blocks := by
      rw [← hregion, ← h'.covers]
      exact bytes_subset_covered hb hxb
    exact Set.disjoint_left.1 h.disjoint_append hx (bytes_subset_covered hc hxc)
  · rw [covered_append, h'.covers, hregion, ← covered_append]
    exact h.covers

theorem singleton {b : Block} (haligned : b.Aligned) (horder : b.order ≤ maxOrder) :
    Tiling [b] b.bytes where
  aligned c hc := by
    cases List.mem_singleton.1 hc
    exact haligned
  order_le c hc := by
    cases List.mem_singleton.1 hc
    exact horder
  disjoint := List.pairwise_singleton _ _
  covers := by simp

theorem halves {addr order : Nat} (haligned : (⟨addr, order + 1⟩ : Block).Aligned)
    (horder : order + 1 ≤ maxOrder) :
    Tiling [⟨addr, order⟩, ⟨addr + blockSize order, order⟩]
      (⟨addr, order + 1⟩ : Block).bytes := by
  refine ⟨?_, ?_, ?_, ?_⟩
  · intro b hb
    rcases List.mem_pair.1 hb with rfl | rfl
    · exact haligned.lower
    · exact haligned.upper
  · intro b hb
    rcases List.mem_pair.1 hb with rfl | rfl
    · exact Nat.le_of_succ_le horder
    · exact Nat.le_of_succ_le horder
  · exact List.pairwise_pair.2 (Block.disjoint_halves addr order)
  · rw [Block.bytes_eq_halves]
    simp

/-- A block may be split into its halves. -/
theorem halve {addr order : Nat} (h : Tiling (⟨addr, order + 1⟩ :: rest) region) :
    Tiling (⟨addr, order⟩ :: ⟨addr + blockSize order, order⟩ :: rest) region := by
  have haligned := h.aligned _ List.mem_cons_self
  have horder := h.order_le _ List.mem_cons_self
  have hwhole : Tiling ([⟨addr, order + 1⟩] ++ rest) region := h
  exact hwhole.replace (halves haligned horder) (by simp)

/-- Splitting again and again leaves a block of the order wanted and an upper half of
    each order above it. -/
theorem split {addr order : Nat} (times : Nat)
    (h : Tiling (⟨addr, order + times⟩ :: rest) region) :
    Tiling (⟨addr, order⟩ :: (Block.upperHalves addr order times ++ rest)) region := by
  -- The largest half is cut off first and joins the rest for the splits that follow.
  induction times generalizing rest with
  | zero => exact h
  | succ times ih =>
    have hhalves : Block.upperHalves addr order (times + 1) ++ rest =
        Block.upperHalves addr order times ++
          (⟨addr + blockSize (order + times), order + times⟩ :: rest) := by
      rw [Block.upperHalves, List.range_succ, List.map_append, List.append_assoc]
      rfl
    rw [hhalves]
    exact ih h.halve

/-- A block and its buddy may be joined. -/
theorem join {b : Block} (h : Tiling (b :: b.buddy :: rest) region) (horder : b.order < maxOrder) :
    Tiling (b.joined :: rest) region := by
  have haligned := h.aligned b List.mem_cons_self
  have hjoined : Tiling [b.joined] b.joined.bytes :=
    singleton (Block.aligned_joined haligned) horder
  have hpair : Tiling ([b, b.buddy] ++ rest) region := h
  refine hpair.replace hjoined ?_
  rw [Block.bytes_joined haligned]
  simp

end Tiling

end TaskKernel
