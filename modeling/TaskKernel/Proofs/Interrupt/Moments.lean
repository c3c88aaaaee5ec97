/-
  TaskKernel.Proofs.Interrupt.Moments

  What a core goes through: the moments of its history, each with the mask word and the locks
  that were held. Masking interrupts and taking a lock keep every moment guarded, around any
  course that is guarded itself.
-/
import TaskKernel.Interrupt.Core

namespace TaskKernel

variable {L : Type}

/-- No lock is held twice, and interrupts are masked while one is held. -/
structure Moment.Guarded (m : Moment L) : Prop where
  once : m.held.Nodup
  masked : m.held ≠ [] → m.mask = irqMaskBit

namespace Core

variable {core core' core'' : Core L}

/-- The present moment is guarded. -/
def Guarded (core : Core L) : Prop := Moment.Guarded ⟨core.mask, core.held⟩

/-- Every moment on the way from one core to the other was guarded. -/
def GuardedSince (core core' : Core L) : Prop :=
  ∃ moments, core'.history = moments ++ core.history ∧ ∀ m ∈ moments, m.Guarded

/-- The same locks are held afterwards, and every moment on the way was guarded. -/
structure Steady (core core' : Core L) : Prop where
  held : core'.held = core.held
  moments : core.GuardedSince core'

/-- A steady course that ends with the mask word it began with. -/
structure Neutral (core core' : Core L) : Prop extends core.Steady core' where
  mask : core'.mask = core.mask

/-- A steady course; if control comes back from it, it ends with the mask word it began with. -/
structure Unwinds (core : Core L) (back : Prop) (core' : Core L) : Prop extends
    core.Steady core' where
  mask : back → core'.mask = core.mask

theorem GuardedSince.refl (core : Core L) : core.GuardedSince core :=
  ⟨[], rfl, fun _ hmem => absurd hmem List.not_mem_nil⟩

theorem GuardedSince.trans (h : core.GuardedSince core') (h' : core'.GuardedSince core'') :
    core.GuardedSince core'' := by
  obtain ⟨first, hfirst, hguarded⟩ := h
  obtain ⟨second, hsecond, hguarded'⟩ := h'
  refine ⟨second ++ first, ?_, ?_⟩
  · rw [hsecond, hfirst, List.append_assoc]
  · intro m hmem
    rcases List.mem_append.1 hmem with hmem | hmem
    · exact hguarded' m hmem
    · exact hguarded m hmem

theorem guardedSince_record (hhistory : core'.history = core.history) (hguarded : core'.Guarded) :
    core.GuardedSince core'.record := by
  refine ⟨[⟨core'.mask, core'.held⟩], ?_, ?_⟩
  · rw [← hhistory]
    rfl
  · intro m hmem
    rw [List.mem_singleton.1 hmem]
    exact hguarded

theorem Steady.refl (core : Core L) : core.Steady core where
  held := rfl
  moments := .refl core

theorem Steady.trans (h : core.Steady core') (h' : core'.Steady core'') : core.Steady core'' where
  held := h'.held.trans h.held
  moments := h.moments.trans h'.moments

theorem Neutral.refl (core : Core L) : core.Neutral core where
  toSteady := .refl core
  mask := rfl

theorem Neutral.trans (h : core.Neutral core') (h' : core'.Neutral core'') :
    core.Neutral core'' where
  toSteady := h.toSteady.trans h'.toSteady
  mask := h'.mask.trans h.mask

theorem Neutral.unwinds (h : core.Neutral core') (back : Prop) : core.Unwinds back core' where
  toSteady := h.toSteady
  mask _ := h.mask

theorem Steady.unwinds (h : core.Steady core') {back : Prop} (hgone : ¬ back) :
    core.Unwinds back core' where
  toSteady := h
  mask hback := absurd hback hgone

theorem Neutral.guarded (h : core.Neutral core') (hguarded : core.Guarded) : core'.Guarded := by
  rw [Guarded, h.mask, h.held]
  exact hguarded

theorem guarded_of_free (hfree : core.held = []) : core.Guarded where
  once := by
    rw [hfree]
    exact List.nodup_nil
  masked hheld := absurd hfree hheld

theorem notMem_of_free (hfree : core.held = []) (lock : L) : lock ∉ core.held := by
  rw [hfree]
  exact List.not_mem_nil

theorem steady_record (hheld : core'.held = core.held) (hhistory : core'.history = core.history)
    (hguarded : core'.Guarded) : core.Steady core'.record where
  held := hheld
  moments := guardedSince_record hhistory hguarded

theorem steady_irqDisable (hguarded : core.Guarded) : core.Steady core.irqDisable.2 :=
  steady_record rfl rfl ⟨hguarded.once, fun _ => rfl⟩

/-- Whatever mask word a free core gets, no lock is exposed by it. -/
theorem steady_irqRestore (hfree : core.held = []) (mask : Word) :
    core.Steady (core.irqRestore mask) :=
  steady_record rfl rfl (guarded_of_free hfree)

/-- A steady course at whose end the mask word is put back. -/
theorem Steady.restored (h : core.Steady core') (hguarded : core.Guarded) :
    core.Neutral (core'.irqRestore core.mask) where
  toSteady := by
    refine h.trans (steady_record rfl rfl ?_)
    rw [Guarded, h.held]
    exact hguarded
  mask := rfl

theorem neutral_setPageTable (hguarded : core.Guarded) (root : PhysAddr) :
    core.Neutral (Platform.setPageTable core root) where
  toSteady := steady_record rfl rfl hguarded
  mask := rfl

theorem guarded_acquire (hguarded : core.Guarded) {lock : L} (hfree : lock ∉ core.held) :
    (core.acquire lock).2.Guarded where
  once := List.nodup_cons.2 ⟨hfree, hguarded.once⟩
  masked _ := rfl

theorem guardedSince_acquire (hguarded : core.Guarded) {lock : L} (hfree : lock ∉ core.held) :
    core.GuardedSince (core.acquire lock).2 := by
  have hmasked := (steady_irqDisable hguarded).moments
  exact hmasked.trans (guardedSince_record rfl (guarded_acquire hguarded hfree))

variable [DecidableEq L]

/-- The lock goes while interrupts are still masked, the mask word comes back after it. -/
theorem guardedSince_release (hguarded : core.Guarded) (hmasked : core.mask = irqMaskBit)
    {guard : Guard L} (hafter : (core.release guard).Guarded) :
    core.GuardedSince (core.release guard) := by
  have hunlocked : core.GuardedSince (record { core with held := core.held.erase guard.lock }) :=
    guardedSince_record rfl ⟨hguarded.once.erase guard.lock, fun _ => hmasked⟩
  exact hunlocked.trans (guardedSince_record rfl hafter)

/-- A lock is taken and let go of around a neutral course. The mask word within is the one that
    the lock has set, and the one from before comes back with the guard. -/
theorem neutral_locked (hguarded : core.Guarded) {lock : L} (hfree : lock ∉ core.held)
    (h : (core.acquire lock).2.Neutral core') :
    core.Neutral (core'.release (core.acquire lock).1) := by
  have hheld : core'.held.erase lock = core.held := by
    rw [h.held]
    exact List.erase_cons_head lock core.held
  have hafter : (core'.release (core.acquire lock).1).Guarded := by
    show Moment.Guarded ⟨core.mask, core'.held.erase lock⟩
    rw [hheld]
    exact hguarded
  have hwithin : core'.Guarded := h.guarded (guarded_acquire hguarded hfree)
  have hlocked := (guardedSince_acquire hguarded hfree).trans h.moments
  exact ⟨⟨hheld, hlocked.trans (guardedSince_release hwithin h.mask hafter)⟩, rfl⟩

end Core

end TaskKernel
