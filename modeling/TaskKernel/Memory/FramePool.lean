/-
  TaskKernel.Memory.FramePool

  A run of page frames handed out first-fit, lowest address first. The pool
  remembers every release, and can be told to fail after a number of requests,
  so that each way of running out of memory can be rehearsed.
-/
import TaskKernel.Memory.Frames

namespace TaskKernel

/-- Page frames from `poolBase` on; `used` has one entry per page. -/
structure FramePool where
  used : List Bool
  /-- Every release so far, oldest first. -/
  releases : List (PhysAddr × Nat)
  /-- How many more requests may succeed; no limit if absent. -/
  budget : Option Nat
deriving DecidableEq, Repr

/-- Physical address of the first page of every pool. -/
def poolBase : Word := 0x10_0000

/-- Index of the first run of `n` free pages. -/
def firstFreeRun (n : Nat) : List Bool → Option Nat
  | [] => if n = 0 then some 0 else none
  | page :: rest =>
    let run := (page :: rest).take n
    if run.length = n ∧ run.all (! ·) then some 0
    else (firstFreeRun n rest).map (· + 1)

/-- The pages with `n` of them, from `start` on, marked `mark`. -/
def markPages (start n : Nat) (mark : Bool) (used : List Bool) : List Bool :=
  used.mapIdx fun i page => if start ≤ i ∧ i < start + n then mark else page

theorem getElem?_markPages (start n : Nat) (mark : Bool) (used : List Bool) (i : Nat) :
    (markPages start n mark used)[i]? =
      used[i]?.map fun page => if start ≤ i ∧ i < start + n then mark else page := by
  simp [markPages]

@[simp] theorem length_markPages (start n : Nat) (mark : Bool) (used : List Bool) :
    (markPages start n mark used).length = used.length := by
  simp [markPages]

namespace FramePool

def ofPages (pages : Nat) : FramePool := ⟨List.replicate pages false, [], none⟩

/-- Lets `n` more requests through and fails all after them. -/
def failAfter (pool : FramePool) (n : Nat) : FramePool := { pool with budget := some n }

def usedPages (pool : FramePool) : Nat := pool.used.count true

/-- How often the range at `pa` was released. -/
def releaseCount (pool : FramePool) (pa : PhysAddr) : Nat :=
  pool.releases.countP (·.1 == pa)

def pageAddr (i : Nat) : PhysAddr := ⟨poolBase + BitVec.ofNat 64 (i * pageSize)⟩

/-- Index of the page that holds `pa`, if it lies in the pool. -/
def pageOf? (pool : FramePool) (pa : PhysAddr) : Option Nat :=
  if poolBase ≤ pa.raw then
    let page := (pa.toNat - poolBase.toNat) / pageSize
    if page < pool.used.length then some page else none
  else none

/-- Takes the first run of free pages that is long enough. A request that the
    budget stops changes nothing; any other spends one unit of it. -/
def allocate (pool : FramePool) (size : Nat) : Option PhysAddr × FramePool :=
  if pool.budget = some 0 then (none, pool)
  else
    -- A request that finds no run of pages has spent its unit all the same.
    let pool := { pool with budget := pool.budget.map (· - 1) }
    match firstFreeRun (pageCount size) pool.used with
    | none => (none, pool)
    | some start =>
      (some (pageAddr start), { pool with used := markPages start (pageCount size) true pool.used })

/-- Records the release and frees those of its pages that lie in the pool. -/
def release (pool : FramePool) (pa : PhysAddr) (size : Nat) : FramePool :=
  let pool := { pool with releases := pool.releases ++ [(pa, size)] }
  match pool.pageOf? pa with
  | none => pool
  | some start => { pool with used := markPages start (pageCount size) false pool.used }

instance : FrameSource FramePool where
  allocate := allocate
  release := release

/-- True when `[pa, pa + len)` lies inside the pool's pages. -/
def holds (pool : FramePool) (pa : PhysAddr) (len : Nat) : Bool :=
  poolBase.toNat ≤ pa.toNat && pa.toNat + len ≤ poolBase.toNat + pool.used.length * pageSize

end FramePool

end TaskKernel
