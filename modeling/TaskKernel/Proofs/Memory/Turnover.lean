/-
  TaskKernel.Proofs.Memory.Turnover

  Frames that change hands. What an operation asks of a frame source is a list of events,
  and the books kept along them hold every allocation that was taken and not returned yet.
  Translation tables are told apart from other allocations: they are taken with
  `allocateTable`, and nobody is going to return them.
-/
import TaskKernel.Proofs.Memory.FrameLedger
import TaskKernel.PageTable.AddressSpace
import Mathlib.Algebra.Order.Group.Multiset

namespace TaskKernel

/-! ## Events and books -/

/-- A range that was taken from a frame source with one request. -/
structure Allocation where
  base : PhysAddr
  size : Nat
deriving DecidableEq, Repr

/-- The frame of a translation table. -/
def Allocation.ofTable (base : PhysAddr) : Allocation := ⟨base, pageSize⟩

/-- What happens between an operation and the frame source. -/
inductive FrameEvent where
  | taken (a : Allocation)
  /-- A cleared frame was taken for a translation table. -/
  | table (base : PhysAddr)
  | returned (a : Allocation)
deriving DecidableEq, Repr

namespace FrameEvent

def table? : FrameEvent → Option Allocation
  | table base => some (.ofTable base)
  | _ => none

def returned? : FrameEvent → Option Allocation
  | returned a => some a
  | _ => none

/-- The books after an event. What is returned must be on the books, with its size. -/
def settle (books : Multiset Allocation) : FrameEvent → Option (Multiset Allocation)
  | taken a => some (a ::ₘ books)
  | table base => some (.ofTable base ::ₘ books)
  | returned a => if a ∈ books then some (books.erase a) else none

end FrameEvent

/-- The translation tables that were taken. -/
def tablesOf (events : List FrameEvent) : Multiset Allocation :=
  events.filterMap FrameEvent.table?

/-- What was returned, oldest first. -/
def returnsOf (events : List FrameEvent) : List Allocation :=
  events.filterMap FrameEvent.returned?

/-- The books after all events, if every return matched an allocation. -/
def settle (books : Multiset Allocation) : List FrameEvent → Option (Multiset Allocation)
  | [] => some books
  | event :: events => (event.settle books).bind fun books => settle books events

theorem settle_append (books : Multiset Allocation) (events events' : List FrameEvent) :
    settle books (events ++ events') = (settle books events).bind fun books => settle books events' := by
  induction events generalizing books with
  | nil => rfl
  | cons event events ih =>
    rw [List.cons_append, settle, settle]
    cases event.settle books with
    | none => rfl
    | some books => exact ih books

@[simp] theorem tablesOf_append (events events' : List FrameEvent) :
    tablesOf (events ++ events') = tablesOf events + tablesOf events' := by
  rw [tablesOf, List.filterMap_append]
  rfl

@[simp] theorem returnsOf_append (events events' : List FrameEvent) :
    returnsOf (events ++ events') = returnsOf events ++ returnsOf events' :=
  List.filterMap_append

theorem FrameEvent.settle_add {books books' : Multiset Allocation} {event : FrameEvent}
    (h : event.settle books = some books') (others : Multiset Allocation) :
    event.settle (books + others) = some (books' + others) := by
  cases event with
  | taken a =>
    cases h
    rw [FrameEvent.settle, Multiset.cons_add]
  | table base =>
    cases h
    rw [FrameEvent.settle, Multiset.cons_add]
  | returned a =>
    rw [FrameEvent.settle] at h ⊢
    split at h
    -- What comes back is struck off `books`, not off `others`.
    · next hmem =>
      cases h
      rw [if_pos (Multiset.mem_add.2 (Or.inl hmem)), Multiset.erase_add_left_pos _ hmem]
    · cases h

/-- Entries that are not concerned stay on the books. -/
theorem settle_add {books books' : Multiset Allocation} {events : List FrameEvent}
    (h : settle books events = some books') (others : Multiset Allocation) :
    settle (books + others) events = some (books' + others) := by
  induction events generalizing books with
  | nil =>
    cases h
    rfl
  | cons event events ih =>
    obtain ⟨next, hnext, hrest⟩ := Option.bind_eq_some_iff.1 h
    rw [settle, FrameEvent.settle_add hnext others]
    exact ih hrest

/-! ## Traffic -/

section

variable {F : Type} [FrameSource F]

/-- `Traffic mem events mem'` says that `events` is everything that happened between the
    memory's users and its frame source on the way from `mem` to `mem'`. -/
inductive Traffic : Memory F → List FrameEvent → Memory F → Prop
  | nil (mem : Memory F) : Traffic mem [] mem
  | refused {mem mem₁ mem' : Memory F} {size : Nat} {events : List FrameEvent}
      (request : mem.allocate size = (none, mem₁)) (rest : Traffic mem₁ events mem') :
      Traffic mem events mem'
  /-- Whoever takes a range may fill it. -/
  | taken {mem mem₁ mem' : Memory F} {size : Nat} {pa : PhysAddr} {events : List FrameEvent}
      (request : mem.allocate size = (some pa, mem₁)) (fill : Ram → Ram)
      (inside : ∀ n, n ∉ framesFrom pa size → (fill mem₁.ram).frame n = mem₁.ram.frame n)
      (rest : Traffic (mem₁.mapRam fill) events mem') :
      Traffic mem (.taken ⟨pa, size⟩ :: events) mem'
  | table {mem mem₁ mem' : Memory F} {pa : PhysAddr} {events : List FrameEvent}
      (request : mem.allocateTable = (some pa, mem₁)) (rest : Traffic mem₁ events mem') :
      Traffic mem (.table pa :: events) mem'
  | returned {mem mem' : Memory F} {a : Allocation} {events : List FrameEvent}
      (rest : Traffic (mem.release a.base a.size) events mem') :
      Traffic mem (.returned a :: events) mem'
  /-- Only links and leaves are ever put into tables. -/
  | entry {mem mem' : Memory F} {events : List FrameEvent} (table : PhysAddr) (slot : Fin 512)
      {d : Descriptor} (present : d.isTable = true)
      (rest : Traffic (mem.mapRam (·.setEntry table slot d)) events mem') : Traffic mem events mem'

theorem Traffic.trans {mem mem₁ mem' : Memory F} {events events' : List FrameEvent}
    (h : Traffic mem events mem₁) (h' : Traffic mem₁ events' mem') :
    Traffic mem (events ++ events') mem' := by
  induction h with
  | nil => exact h'
  | refused request rest ih => exact .refused request (ih h')
  | taken request fill inside rest ih => exact .taken request fill inside (ih h')
  | table request rest ih => exact .table request (ih h')
  | returned rest ih => exact .returned (ih h')
  | entry table slot present rest ih => exact .entry table slot present (ih h')

/-- A range may be taken without being filled. -/
theorem Traffic.take {mem mem₁ mem' : Memory F} {size : Nat} {pa : PhysAddr}
    {events : List FrameEvent} (request : mem.allocate size = (some pa, mem₁))
    (rest : Traffic mem₁ events mem') : Traffic mem (.taken ⟨pa, size⟩ :: events) mem' :=
  .taken request id (fun _ _ => rfl) rest

/-- Memory after several ranges were given back. -/
def Memory.releaseAll (mem : Memory F) (back : List Allocation) : Memory F :=
  back.foldl (fun mem a => mem.release a.base a.size) mem

theorem Traffic.releaseAll (mem : Memory F) (back : List Allocation) :
    Traffic mem (back.map .returned) (mem.releaseAll back) := by
  induction back generalizing mem with
  | nil => exact .nil mem
  | cons a back ih => exact .returned (ih _)

/-! ## Turnover -/

/-- An operation that finds `before` on the books leaves `after` on them, beside the
    tables that it made; every return on the way matches an allocation. -/
def Turnover (mem : Memory F) (before after : Multiset Allocation) (mem' : Memory F) : Prop :=
  ∃ events, Traffic mem events mem' ∧ settle before events = some (after + tablesOf events)

namespace Turnover

variable {mem mem₁ mem' : Memory F} {before middle after : Multiset Allocation}

theorem refl (mem : Memory F) (books : Multiset Allocation) : Turnover mem books books mem :=
  ⟨[], .nil mem, congrArg some (add_zero books).symm⟩

theorem trans (h : Turnover mem before middle mem₁) (h' : Turnover mem₁ middle after mem') :
    Turnover mem before after mem' := by
  obtain ⟨events, htraffic, hsettle⟩ := h
  obtain ⟨events', htraffic', hsettle'⟩ := h'
  refine ⟨events ++ events', htraffic.trans htraffic', ?_⟩
  -- The second operation settles beside the tables that the first has made.
  rw [settle_append, hsettle, Option.bind_some, settle_add hsettle', tablesOf_append, add_assoc,
    add_comm (tablesOf events')]

theorem add (h : Turnover mem before after mem') (others : Multiset Allocation) :
    Turnover mem (before + others) (after + others) mem' := by
  obtain ⟨events, htraffic, hsettle⟩ := h
  refine ⟨events, htraffic, ?_⟩
  rw [settle_add hsettle, add_right_comm]

/-- An operation that needs nothing adds to whatever is on the books. -/
theorem on (h : Turnover mem 0 after mem') (books : Multiset Allocation) :
    Turnover mem books (after + books) mem' := by
  have hbooks := h.add books
  rwa [zero_add] at hbooks

theorem keep (h : Turnover mem 0 0 mem') (books : Multiset Allocation) :
    Turnover mem books books mem' := by
  have hbooks := h.add books
  rwa [zero_add] at hbooks

theorem of_allocate_none {size : Nat} (h : mem.allocate size = (none, mem')) :
    Turnover mem 0 0 mem' :=
  ⟨[], .refused h (.nil _), rfl⟩

theorem of_filled {size : Nat} {pa : PhysAddr} (h : mem.allocate size = (some pa, mem₁))
    (fill : Ram → Ram)
    (inside : ∀ n, n ∉ framesFrom pa size → (fill mem₁.ram).frame n = mem₁.ram.frame n) :
    Turnover mem 0 {⟨pa, size⟩} (mem₁.mapRam fill) :=
  ⟨[.taken ⟨pa, size⟩], .taken h fill inside (.nil _), rfl⟩

theorem of_allocate_some {size : Nat} {pa : PhysAddr} (h : mem.allocate size = (some pa, mem')) :
    Turnover mem 0 {⟨pa, size⟩} mem' :=
  of_filled h id fun _ _ => rfl

theorem release (mem : Memory F) (a : Allocation) :
    Turnover mem {a} 0 (mem.release a.base a.size) := by
  refine ⟨[.returned a], .returned (.nil _), ?_⟩
  rw [settle, FrameEvent.settle, if_pos (Multiset.mem_singleton_self a), Multiset.erase_singleton]
  rfl

end Turnover

/-! ## Taking tables -/

theorem settle_tables (books : Multiset Allocation) (tables : List PhysAddr) :
    settle books (tables.map .table) = some (books + tablesOf (tables.map .table)) := by
  induction tables generalizing books with
  | nil => exact congrArg some (add_zero books).symm
  | cons base tables ih =>
    have hcons : tablesOf ((base :: tables).map .table) =
        .ofTable base ::ₘ tablesOf (tables.map .table) := rfl
    rw [List.map_cons, settle, FrameEvent.settle, Option.bind_some, ih, ← List.map_cons, hcons,
      Multiset.cons_add, Multiset.add_cons]

/-- An operation that takes frames for tables and asks the frame source for nothing else. -/
def TakesTables (mem mem' : Memory F) : Prop :=
  ∃ tables : List PhysAddr, Traffic mem (tables.map .table) mem'

namespace TakesTables

variable {mem mem₁ mem' : Memory F}

theorem refl (mem : Memory F) : TakesTables mem mem := ⟨[], .nil mem⟩

theorem trans (h : TakesTables mem mem₁) (h' : TakesTables mem₁ mem') : TakesTables mem mem' := by
  obtain ⟨tables, htraffic⟩ := h
  obtain ⟨tables', htraffic'⟩ := h'
  refine ⟨tables ++ tables', ?_⟩
  rw [List.map_append]
  exact htraffic.trans htraffic'

theorem setEntry (mem : Memory F) (table : PhysAddr) (slot : Fin 512) {d : Descriptor}
    (present : d.isTable = true) : TakesTables mem (mem.mapRam (·.setEntry table slot d)) :=
  ⟨[], .entry table slot present (.nil _)⟩

theorem allocateTable (mem : Memory F) : TakesTables mem mem.allocateTable.2 := by
  rcases h : mem.allocateTable with ⟨_ | table, mem'⟩
  · rw [Memory.allocateTable] at h
    split at h
    · next heq =>
      cases h
      exact ⟨[], .refused heq (.nil _)⟩
    · cases h
  · exact ⟨[table], .table h (.nil _)⟩

/-- Tables are never returned, so nothing but tables is left. -/
theorem turnover (h : TakesTables mem mem') : Turnover mem 0 0 mem' := by
  obtain ⟨tables, htraffic⟩ := h
  exact ⟨_, htraffic, settle_tables 0 tables⟩

end TakesTables

end

end TaskKernel
