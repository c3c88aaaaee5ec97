/-
  TaskKernel.Proofs.Interrupt.NestedLocks

  Locks taken within locks on one core. Each guard keeps the mask word that it has found, so the
  words of the living guards form a stack: the one of the outermost guard is the word from before
  all locks, every other one masks interrupts. As long as guards are dropped in the reverse order,
  interrupts stay masked under any of them, and the word from before is back after the last one.
-/
import TaskKernel.Proofs.Interrupt.Moments

namespace TaskKernel

variable {L : Type}

/-! ## Mask words of a stack of guards -/

/-- The mask word over a stack of guards: the word from before them if there are none. Each guard
    keeps the word over those that were taken before it. -/
inductive MaskOver (before : Word) : List (Guard L) → Word → Prop where
  | none : MaskOver before [] before
  | guard {guards : List (Guard L)} {saved : Word} (h : MaskOver before guards saved) (lock : L) :
      MaskOver before (⟨lock, saved⟩ :: guards) irqMaskBit

namespace MaskOver

variable {before mask : Word} {guards : List (Guard L)}

theorem of_nil (h : MaskOver before ([] : List (Guard L)) mask) : mask = before := by
  cases h
  rfl

theorem of_ne_nil (h : MaskOver before guards mask) (hguards : guards ≠ []) :
    mask = irqMaskBit := by
  cases h with
  | none => exact absurd rfl hguards
  | guard => rfl

/-- What the latest guard keeps is the word over the others. -/
theorem saved {guard : Guard L} (h : MaskOver before (guard :: guards) mask) :
    MaskOver before guards guard.saved := by
  cases h with
  | guard h => exact h

end MaskOver

/-! ## The guards and the core -/

namespace Core

variable {start core core' : Core L} {guards : List (Guard L)} {lock : L}

/-- The locks that are held are those of the guards, each once, the mask word is the one over the
    guards, and every moment since the start was guarded. -/
structure Stacked (start core : Core L) (guards : List (Guard L)) : Prop where
  held : core.held = guards.map (·.lock)
  once : core.held.Nodup
  mask : MaskOver start.mask guards core.mask
  moments : start.GuardedSince core

theorem stacked_start (hfree : start.held = []) : start.Stacked start [] where
  held := hfree
  once := by
    rw [hfree]
    exact List.nodup_nil
  mask := .none
  moments := .refl start

theorem Stacked.guarded (h : start.Stacked core guards) : core.Guarded where
  once := h.once
  masked := by
    intro hheld
    apply h.mask.of_ne_nil
    rintro rfl
    exact hheld h.held

/-- A neutral course is none that a guard could tell. -/
theorem Stacked.neutral (h : start.Stacked core guards) (hneutral : core.Neutral core') :
    start.Stacked core' guards where
  held := hneutral.held.trans h.held
  once := (hneutral.guarded h.guarded).once
  mask := by
    rw [hneutral.mask]
    exact h.mask
  moments := h.moments.trans hneutral.moments

/-! ## A lock that is tried -/

variable [DecidableEq L]

theorem isHeld_iff : core.isHeld lock ↔ lock ∈ core.held :=
  List.contains_iff_mem

theorem notMem_of_isHeld_eq_false (hfree : core.isHeld lock = false) : lock ∉ core.held := by
  intro hmem
  rw [isHeld_iff.2 hmem] at hfree
  cases hfree

/-- A lock that is free is taken as if nobody had looked. -/
theorem tryAcquire_of_free (hfree : core.isHeld lock = false) :
    core.tryAcquire lock = (some (core.acquire lock).1, (core.acquire lock).2) := by
  have hfree' : core.irqDisable.2.isHeld lock = false := hfree
  simp only [tryAcquire, hfree']
  rfl

/-- A lock that is held costs one round of masking. -/
theorem tryAcquire_of_held (hheld : core.isHeld lock = true) :
    core.tryAcquire lock = (none, core.irqDisable.2.irqRestore core.mask) := by
  have hheld' : core.irqDisable.2.isHeld lock = true := hheld
  simp only [tryAcquire, hheld']
  rfl

theorem tryAcquire_eq_none_iff : (core.tryAcquire lock).1 = none ↔ core.isHeld lock := by
  cases h : core.isHeld lock with
  | false =>
    rw [tryAcquire_of_free h]
    simp
  | true =>
    rw [tryAcquire_of_held h]
    simp

/-! ## Nested courses -/

/-- What one core comes to when it takes locks that are free, tries any locks and drops the latest
    of the guards that it has, with the guards that are alive then, the latest first. -/
inductive Nesting (start : Core L) : Core L → List (Guard L) → Prop where
  | start : start.Nesting start []
  | acquire {core : Core L} {guards : List (Guard L)} (nesting : start.Nesting core guards)
      {lock : L} (hfree : core.isHeld lock = false) :
      start.Nesting (core.acquire lock).2 ((core.acquire lock).1 :: guards)
  | tryAcquire {core : Core L} {guards : List (Guard L)} (nesting : start.Nesting core guards)
      (lock : L) :
      start.Nesting (core.tryAcquire lock).2 ((core.tryAcquire lock).1.toList ++ guards)
  | release {core : Core L} {guard : Guard L} {guards : List (Guard L)}
      (nesting : start.Nesting core (guard :: guards)) : start.Nesting (core.release guard) guards

namespace Stacked

theorem acquire (h : start.Stacked core guards) (hfree : core.isHeld lock = false) :
    start.Stacked (core.acquire lock).2 ((core.acquire lock).1 :: guards) where
  held := congrArg (lock :: ·) h.held
  once := (guarded_acquire h.guarded (notMem_of_isHeld_eq_false hfree)).once
  mask := h.mask.guard lock
  moments := h.moments.trans (guardedSince_acquire h.guarded (notMem_of_isHeld_eq_false hfree))

theorem tryAcquire (h : start.Stacked core guards) (lock : L) :
    start.Stacked (core.tryAcquire lock).2 ((core.tryAcquire lock).1.toList ++ guards) := by
  cases hlock : core.isHeld lock with
  | false =>
    rw [tryAcquire_of_free hlock]
    exact h.acquire hlock
  | true =>
    -- Interrupts are masked for the attempt only; the word from before it comes back.
    rw [tryAcquire_of_held hlock]
    exact h.neutral ((steady_irqDisable h.guarded).restored h.guarded)

theorem release {guard : Guard L} (h : start.Stacked core (guard :: guards)) :
    start.Stacked (core.release guard) guards := by
  -- The latest guard is the one of the lock at the head.
  have hheld : (core.release guard).held = guards.map (·.lock) := by
    show core.held.erase guard.lock = guards.map (·.lock)
    rw [h.held]
    exact List.erase_cons_head guard.lock (guards.map (·.lock))
  have honce : (core.release guard).held.Nodup := h.once.erase guard.lock
  -- With other locks left, the word that comes back masks interrupts too.
  have hafter : (core.release guard).Guarded := by
    refine ⟨honce, fun hothers => h.mask.saved.of_ne_nil ?_⟩
    rintro rfl
    exact hothers hheld
  have hmasked : core.mask = irqMaskBit := h.mask.of_ne_nil (List.cons_ne_nil guard guards)
  have hreleased := guardedSince_release h.guarded hmasked hafter
  exact ⟨hheld, honce, h.mask.saved, h.moments.trans hreleased⟩

end Stacked

theorem Nesting.stacked (hfree : start.held = []) (nesting : start.Nesting core guards) :
    start.Stacked core guards := by
  -- On the course. The stack of the guards so far is all that the next operation asks for.
  induction nesting with
  | start => exact stacked_start hfree
  | acquire _ hlock ih => exact ih.acquire hlock
  | tryAcquire _ lock ih => exact ih.tryAcquire lock
  | release _ ih => exact ih.release

/-- On a core that held no lock: interrupts are masked while a guard is alive, and the mask word
    is the one from the start while none is. The locks that are held are those of the living
    guards, no two of the same lock. Trying a lock fails just if it is held, which changes neither
    the mask word nor what is held. Within the operations, too, no lock is ever held while
    interrupts get through. -/
theorem nested_locks_masked (hfree : start.held = []) (nesting : start.Nesting core guards) :
    (guards ≠ [] → core.mask = irqMaskBit) ∧ (guards = [] → core.mask = start.mask) ∧
      (guards.map (·.lock)).Nodup ∧
      (∀ lock, core.isHeld lock ↔ ∃ guard ∈ guards, guard.lock = lock) ∧
      (∀ lock, ((core.tryAcquire lock).1 = none ↔ core.isHeld lock) ∧
        ((core.tryAcquire lock).1 = none →
          (core.tryAcquire lock).2.mask = core.mask ∧
            ∀ other, (core.tryAcquire lock).2.isHeld other = core.isHeld other)) ∧
      ∃ moments, core.history = moments ++ start.history ∧
        ∀ m ∈ moments, m.held ≠ [] → m.mask = irqMaskBit := by
  have h := nesting.stacked hfree
  refine ⟨h.mask.of_ne_nil, ?_, ?_, fun lock => ?_, fun lock => ⟨tryAcquire_eq_none_iff, ?_⟩, ?_⟩
  · rintro rfl
    exact h.mask.of_nil
  · rw [← h.held]
    exact h.once
  · rw [isHeld_iff, h.held]
    exact List.mem_map
  · intro hnone
    rw [tryAcquire_of_held (tryAcquire_eq_none_iff.1 hnone)]
    exact ⟨rfl, fun _ => rfl⟩
  · obtain ⟨moments, hhistory, hguarded⟩ := h.moments
    exact ⟨moments, hhistory, fun m hmem => (hguarded m hmem).masked⟩

/-- Of three locks the first is taken, the second is tried and taken, and trying the first one
    again fails: interrupts are masked, and what was masked at the start is back after both guards
    are gone. -/
theorem nested_locks_masked_two :
    let start : Core (Fin 3) := .withMask 0x340
    let outer := start.acquire 0
    let inner := outer.2.tryAcquire 1
    let failed := inner.2.tryAcquire 0
    start.held = [] ∧ inner.1 = some ⟨1, irqMaskBit⟩ ∧ failed.1 = none ∧
      failed.2.mask = irqMaskBit ∧ failed.2.isHeld 0 ∧ failed.2.isHeld 1 ∧
      ((failed.2.release ⟨1, irqMaskBit⟩).release outer.1).mask = 0x340 := by
  intro start outer inner failed
  have hfree : start.held = [] := rfl
  have hinner : inner.1 = some ⟨1, irqMaskBit⟩ := rfl
  have hfailed : failed.1 = none := rfl
  have nested : start.Nesting failed.2 [⟨1, irqMaskBit⟩, outer.1] :=
    ((Nesting.start.acquire rfl).tryAcquire 1).tryAcquire 0
  obtain ⟨hmasked, -, -, hflags, -⟩ := nested_locks_masked hfree nested
  obtain ⟨-, hback, -⟩ := nested_locks_masked hfree nested.release.release
  refine ⟨hfree, hinner, hfailed, hmasked (List.cons_ne_nil _ _), ?_, ?_, hback rfl⟩
  · exact (hflags 0).2 ⟨outer.1, by simp, rfl⟩
  · exact (hflags 1).2 ⟨⟨1, irqMaskBit⟩, by simp, rfl⟩

end Core

end TaskKernel
