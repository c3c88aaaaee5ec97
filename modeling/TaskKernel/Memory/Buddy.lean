/-
  TaskKernel.Memory.Buddy

  A binary buddy allocator over one region. Blocks have sizes 16 · 2 ^ order and
  start at a multiple of their size, so the buddy of a block is found by flipping
  one address bit. The free blocks are kept in one list, the most recently freed
  first; a request takes the first block of the smallest order that will do.
-/

namespace TaskKernel

/-! ## Blocks -/

def minBlockSize : Nat := 16

/-- Largest order; its blocks have 16 MiB. -/
def maxOrder : Nat := 20

/-- Reserved ranges the allocator can remember. -/
def maxReserved : Nat := 8

def blockSize (order : Nat) : Nat := minBlockSize <<< order

/-- The smallest order whose blocks hold `size` bytes, or the largest there is. -/
def orderFor (size : Nat) : Nat :=
  ((List.range maxOrder).find? fun order => decide (size ≤ blockSize order)).getD maxOrder

/-- The least multiple of `align` that is not below `value`. -/
def alignUp (value align : Nat) : Nat := (value + (align - 1)) / align * align

/-- A block of memory. -/
structure Block where
  addr : Nat
  order : Nat
deriving DecidableEq, Repr

namespace Block

def size (b : Block) : Nat := blockSize b.order

/-- The block that, joined with `b`, makes a block of the next order. -/
def buddy (b : Block) : Block :=
  if b.addr / b.size % 2 = 0 then ⟨b.addr + b.size, b.order⟩ else ⟨b.addr - b.size, b.order⟩

/-- The block of the next order made of `b` and its buddy. -/
def joined (b : Block) : Block := ⟨min b.addr b.buddy.addr, b.order + 1⟩

/-- The upper halves cut off when `b` is split `times` times, smallest first;
    `order` is the order of what remains. -/
def upperHalves (addr order times : Nat) : List Block :=
  (List.range times).map fun i => ⟨addr + blockSize (order + i), order + i⟩

end Block

/-! ## The allocator -/

structure BuddyAllocator where
  /-- Free blocks, the most recently freed first. -/
  free : List Block
  /-- Ranges `[start, stop)` kept out of the free blocks, in the order given. -/
  reserved : List (Nat × Nat)
  /-- Total size of the blocks handed out. -/
  allocated : Nat
deriving DecidableEq, Repr

/-- End of the first reserved range that meets `[addr, addr + len)`. -/
def reservedEnd? (reserved : List (Nat × Nat)) (addr len : Nat) : Option Nat :=
  (reserved.find? fun r => decide (addr < r.2 ∧ r.1 < addr + len)).map (·.2)

/-- True when the block is aligned, ends by `stop` and meets no reserved range. -/
def Block.isUsable (reserved : List (Nat × Nat)) (stop : Nat) (b : Block) : Bool :=
  b.addr % b.size == 0 && b.addr + b.size ≤ stop && (reservedEnd? reserved b.addr b.size).isNone

/-- The order reached from `order` by doubling the block at `addr` while it stays usable. -/
def largestOrder (reserved : List (Nat × Nat)) (stop addr order : Nat) : Nat :=
  if order < maxOrder ∧ Block.isUsable reserved stop ⟨addr, order + 1⟩ then
    largestOrder reserved stop addr (order + 1)
  else order
termination_by maxOrder - order

theorem le_alignUp (value : Nat) : value ≤ alignUp value minBlockSize := by
  simp only [alignUp, minBlockSize]; omega

theorem blockSize_pos (order : Nat) : 0 < blockSize order := by
  rw [blockSize, Nat.shiftLeft_eq]
  exact Nat.mul_pos (by decide) (Nat.two_pow_pos order)

theorem lt_of_reservedEnd? {reserved : List (Nat × Nat)} {addr len stop : Nat}
    (h : reservedEnd? reserved addr len = some stop) : addr < stop := by
  obtain ⟨r, hr, rfl⟩ := Option.map_eq_some_iff.1 h
  have := List.find?_some hr
  simp only [decide_eq_true_eq] at this
  exact this.1

/-- The blocks of `[addr, stop)` outside the reserved ranges, in ascending order,
    each as large as its address allows. -/
def carve (reserved : List (Nat × Nat)) (stop addr : Nat) : List Block :=
  if addr + minBlockSize ≤ stop then
    match h : reservedEnd? reserved addr minBlockSize with
    | some skip =>
      -- A reserved range starts here: go on behind it.
      have := lt_of_reservedEnd? h
      have := le_alignUp skip
      carve reserved stop (alignUp skip minBlockSize)
    | none =>
      have := blockSize_pos (largestOrder reserved stop addr 0)
      ⟨addr, largestOrder reserved stop addr 0⟩ ::
        carve reserved stop (addr + blockSize (largestOrder reserved stop addr 0))
  else []
termination_by stop - addr
decreasing_by all_goals simp only [minBlockSize] at *; omega

/-- The first block of the smallest order that is at least `order`. -/
def smallestFit (order : Nat) : List Block → Option Block
  | [] => none
  | b :: rest =>
    if b.order < order then smallestFit order rest
    else match smallestFit order rest with
      | some c => if c.order < b.order then some c else some b
      | none => some b

/-- The free blocks after freeing `b`: it is joined with its buddy as long as that is free. -/
def insertJoined (free : List Block) (b : Block) : List Block :=
  if b.order < maxOrder ∧ b.buddy ∈ free then insertJoined (free.erase b.buddy) b.joined
  else b :: free
termination_by maxOrder - b.order
decreasing_by simp only [Block.joined]; omega

namespace BuddyAllocator

def empty : BuddyAllocator := ⟨[], [], 0⟩

/-- Keeps `[start, stop)` out of the free blocks of a later `init`; false when the
    table of reservations is full. An empty range needs no entry. -/
def reserve (a : BuddyAllocator) (start stop : Nat) : Bool × BuddyAllocator :=
  if stop ≤ start then (true, a)
  else if a.reserved.length < maxReserved then
    (true, { a with reserved := a.reserved ++ [(start, stop)] })
  else (false, a)

/-- Fills the free blocks with `[base, base + size)` less the reserved ranges. -/
def init (a : BuddyAllocator) (base size : Nat) : BuddyAllocator :=
  { a with free := (carve a.reserved (base + size) (alignUp base minBlockSize)).reverse }

/-- Takes a block of at least `size` bytes, aligned to its own size. A larger block
    is split and its upper halves become free. -/
def allocate (a : BuddyAllocator) (size : Nat) : Option Nat × BuddyAllocator :=
  if blockSize maxOrder < size then (none, a)
  else
    let order := orderFor size
    match smallestFit order a.free with
    | none => (none, a)
    | some b =>
      let halves := Block.upperHalves b.addr order (b.order - order)
      (some b.addr, { a with
        free := halves ++ a.free.erase b
        allocated := a.allocated + blockSize order })

/-- Takes back the block at `addr` that was handed out for `size` bytes. -/
def deallocate (a : BuddyAllocator) (addr size : Nat) : BuddyAllocator :=
  let order := orderFor size
  { a with
    free := insertJoined a.free ⟨addr, order⟩
    allocated := a.allocated - blockSize order }

end BuddyAllocator

end TaskKernel
