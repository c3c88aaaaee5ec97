/-
  TaskKernel.Proofs.Memory.Recording

  A frame source that writes down its calls. Whatever runs over frames runs over any source
  of them, so over a recorded one it asks for the same ranges, gets the same answers and
  finds the same memory. The record then holds every range that was really handed out or
  taken back, in order, whoever asked.
-/
import TaskKernel.Proofs.Memory.Turnover

namespace TaskKernel

variable {F : Type}

/-! ## Recorded sources -/

/-- A source of frames with a record of its calls. -/
structure Recorded (F : Type) where
  source : F
  /-- The ranges that were handed out or taken back, the oldest first. A source is not told
      what a range is for: the frame of a table stands here as taken. -/
  calls : List FrameEvent

namespace Recorded

variable [FrameSource F]

/-- A request that is refused leaves nothing in the record. -/
def allocate (r : Recorded F) (size : Nat) : Option PhysAddr × Recorded F :=
  let (pa, source) := FrameSource.allocate r.source size
  (pa, ⟨source, r.calls ++ (pa.map fun base => .taken ⟨base, size⟩).toList⟩)

def release (r : Recorded F) (pa : PhysAddr) (size : Nat) : Recorded F :=
  ⟨FrameSource.release r.source pa size, r.calls ++ [.returned ⟨pa, size⟩]⟩

instance : FrameSource (Recorded F) where
  allocate := allocate
  release := release

end Recorded

/-- What a ledger says about a source it says about the recorded one. -/
def FrameLedger.recorded [FrameSource F] (L : FrameLedger F) : FrameLedger (Recorded F) where
  valid r := L.valid r.source
  held r := L.held r.source
  valid_allocate r := L.valid_allocate r.source
  held_of_none r := L.held_of_none r.source
  grantable_of_some r := L.grantable_of_some r.source
  held_of_some r := L.held_of_some r.source

/-- Memory without the record of its frame source. -/
def Memory.unrecorded (mem : Memory (Recorded F)) : Memory F := ⟨mem.ram, mem.frames.source⟩

/-- An event as a frame source sees it. -/
def FrameEvent.seen : FrameEvent → FrameEvent
  | table base => taken (.ofTable base)
  | event => event

/-- The books do not depend on what a range was taken for. -/
theorem settle_seen (books : Multiset Allocation) (events : List FrameEvent) :
    settle books (events.map FrameEvent.seen) = settle books events := by
  induction events generalizing books with
  | nil => rfl
  | cons event events ih =>
    have hevent : event.seen.settle books = event.settle books := by cases event <;> rfl
    rw [List.map_cons, settle, settle, hevent]
    exact congrArg _ (funext ih)

theorem returned_mem_seen {a : Allocation} {events : List FrameEvent} :
    .returned a ∈ events.map FrameEvent.seen ↔ a ∈ returnsOf events := by
  rw [List.mem_map, returnsOf, List.mem_filterMap]
  constructor
  · rintro ⟨event, hmem, hseen⟩
    cases event with
    | returned b =>
      cases hseen
      exact ⟨_, hmem, rfl⟩
    | _ => cases hseen
  · rintro ⟨event, hmem, hreturned⟩
    cases event with
    | returned b =>
      cases hreturned
      exact ⟨_, hmem, rfl⟩
    | _ => cases hreturned

/-! ## Traffic over a recorded source -/

section

variable [FrameSource F] {mem mem' : Memory (Recorded F)}

theorem unrecorded_of_allocate {size : Nat} {pa : Option PhysAddr}
    (h : mem.allocate size = (pa, mem')) :
    mem.unrecorded.allocate size = (pa, mem'.unrecorded) := by
  cases h
  rfl

theorem calls_of_allocate {size : Nat} {pa : Option PhysAddr}
    (h : mem.allocate size = (pa, mem')) : mem'.frames.calls =
      mem.frames.calls ++ (pa.map fun base => .taken ⟨base, size⟩).toList := by
  cases h
  rfl

theorem unrecorded_of_allocateTable {pa : PhysAddr} (h : mem.allocateTable = (some pa, mem')) :
    mem.unrecorded.allocateTable = (some pa, mem'.unrecorded) := by
  rw [Memory.allocateTable] at h ⊢
  split at h
  · cases h
  · next heq =>
    rw [unrecorded_of_allocate heq]
    cases h
    rfl

theorem calls_of_allocateTable {pa : PhysAddr} (h : mem.allocateTable = (some pa, mem')) :
    mem'.frames.calls = mem.frames.calls ++ [.taken (.ofTable pa)] := by
  rw [Memory.allocateTable] at h
  split at h
  · cases h
  · next heq =>
    have hcalls := calls_of_allocate heq
    cases h
    exact hcalls

/-- The source itself sees the same traffic. -/
theorem Traffic.unrecorded {events : List FrameEvent} (traffic : Traffic mem events mem') :
    Traffic mem.unrecorded events mem'.unrecorded := by
  induction traffic with
  | nil => exact .nil _
  | refused request rest ih => exact .refused (unrecorded_of_allocate request) ih
  | taken request fill inside rest ih =>
    exact .taken (unrecorded_of_allocate request) fill inside ih
  | table request rest ih => exact .table (unrecorded_of_allocateTable request) ih
  | returned rest ih => exact .returned ih
  | entry table slot present rest ih => exact .entry table slot present ih

/-- What happened is what the record has grown by: nothing is left out and nothing made up. -/
theorem Traffic.calls {events : List FrameEvent} (traffic : Traffic mem events mem') :
    mem'.frames.calls = mem.frames.calls ++ events.map FrameEvent.seen := by
  induction traffic with
  | nil => exact (List.append_nil _).symm
  | refused request rest ih =>
    rw [ih, calls_of_allocate request, Option.map_none, Option.toList_none, List.append_nil]
  | taken request fill inside rest ih =>
    rw [ih, Memory.mapRam_frames, calls_of_allocate request, List.append_assoc]
    rfl
  | table request rest ih =>
    rw [ih, calls_of_allocateTable request, List.append_assoc]
    rfl
  | @returned mem mem' a events rest ih =>
    rw [ih]
    show (mem.frames.calls ++ [FrameEvent.returned a]) ++ _ = _
    rw [List.append_assoc]
    rfl
  | entry table slot present rest ih => exact ih

end

end TaskKernel
