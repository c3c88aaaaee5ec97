/-
  TaskKernel.Memory.Ram

  The contents of physical memory, frame by frame. A frame is 512 words; a frame
  that was never written holds zeros. Words and bytes are views of the frames:
  `frame_setFrame_self` and `frame_setFrame_of_ne` say all there is to know
  about a write, and every other write goes through `setFrame`.
-/
import TaskKernel.Address

namespace TaskKernel

/-- Contents of one frame: 512 words of eight bytes. -/
abbrev Frame := Vector Word 512

def Frame.zero : Frame := Vector.replicate 512 0

/-- Contents of physical memory; `written` holds the frames written so far by number. -/
structure Ram where
  written : List (Nat × Frame)

namespace Ram

/-! ## Frames -/

/-- Memory in which every frame holds zeros. -/
def zero : Ram := ⟨[]⟩

/-- Contents of frame number `n`. -/
def frame (ram : Ram) (n : Nat) : Frame := (ram.written.lookup n).getD Frame.zero

/-- Memory with frame number `n` replaced. -/
def setFrame (ram : Ram) (n : Nat) (f : Frame) : Ram :=
  ⟨(n, f) :: ram.written.filter (·.1 != n)⟩

@[simp] theorem frame_zero (n : Nat) : zero.frame n = Frame.zero := rfl

@[simp] theorem frame_setFrame_self (ram : Ram) (n : Nat) (f : Frame) :
    (ram.setFrame n f).frame n = f := by
  simp [frame, setFrame]

theorem lookup_filter_of_ne {n m : Nat} (h : m ≠ n) (l : List (Nat × Frame)) :
    (l.filter (·.1 != n)).lookup m = l.lookup m := by
  induction l with
  | nil => rfl
  | cons p l ih =>
    obtain ⟨k, f⟩ := p
    by_cases hk : k = n
    · subst hk
      have hm : (m == k) = false := by simpa using h
      simp [List.lookup_cons, hm, ih]
    · simp [List.lookup_cons, hk, ih]

theorem frame_setFrame_of_ne (ram : Ram) {n m : Nat} (f : Frame) (h : m ≠ n) :
    (ram.setFrame n f).frame m = ram.frame m := by
  have hm : (m == n) = false := by simpa using h
  simp [frame, setFrame, List.lookup_cons, hm, lookup_filter_of_ne h]

def clearFrame (ram : Ram) (pa : PhysAddr) : Ram := ram.setFrame pa.frameNumber Frame.zero

/-! ## Words -/

/-- The aligned word that holds `pa`. -/
def word (ram : Ram) (pa : PhysAddr) : Word := (ram.frame pa.frameNumber)[pa.wordSlot]

/-- Memory with the aligned word that holds `pa` replaced. -/
def setWord (ram : Ram) (pa : PhysAddr) (w : Word) : Ram :=
  ram.setFrame pa.frameNumber ((ram.frame pa.frameNumber).set pa.wordSlot w)

@[simp] theorem word_setWord_self (ram : Ram) (pa : PhysAddr) (w : Word) :
    (ram.setWord pa w).word pa = w := by
  simp [word, setWord]

theorem word_setWord_of_ne (ram : Ram) {pa pa' : PhysAddr} (w : Word)
    (h : pa'.frameNumber ≠ pa.frameNumber ∨ pa'.wordSlot ≠ pa.wordSlot) :
    (ram.setWord pa w).word pa' = ram.word pa' := by
  by_cases hf : pa'.frameNumber = pa.frameNumber
  · have hs : (pa.wordSlot : Nat) ≠ pa'.wordSlot :=
      fun e => (h.resolve_left fun hn => hn hf) (Fin.ext e.symm)
    simp only [word, setWord, hf, frame_setFrame_self]
    exact Vector.getElem_set_ne _ _ hs
  · simp only [word, setWord, frame_setFrame_of_ne _ _ hf]

/-! ## Bytes -/

def byte (ram : Ram) (pa : PhysAddr) : Byte := byteOf (ram.word pa) (pa.toNat % 8)

def setByte (ram : Ram) (pa : PhysAddr) (b : Byte) : Ram :=
  ram.setWord pa (setByteOf (ram.word pa) (pa.toNat % 8) b)

def readBytes (ram : Ram) (pa : PhysAddr) (n : Nat) : List Byte :=
  (List.range n).map fun i => ram.byte (pa.plus i)

/-- Memory after writing `bytes` from `pa` on, in ascending order. -/
def writeBytes (ram : Ram) (pa : PhysAddr) : List Byte → Ram
  | [] => ram
  | b :: bytes => (ram.setByte pa b).writeBytes (pa.plus 1) bytes

@[simp] theorem byte_setByte_self (ram : Ram) (pa : PhysAddr) (b : Byte) :
    (ram.setByte pa b).byte pa = b := by
  simp only [byte, setByte, word_setWord_self]
  exact byteOf_setByteOf_self (Nat.mod_lt _ (by decide))

theorem byte_setByte_of_ne (ram : Ram) {pa pa' : PhysAddr} (b : Byte) (h : pa' ≠ pa) :
    (ram.setByte pa b).byte pa' = ram.byte pa' := by
  by_cases hw : pa'.frameNumber = pa.frameNumber ∧ pa'.wordSlot = pa.wordSlot
  · obtain ⟨hf, hs⟩ := hw
    have hne : pa'.toNat ≠ pa.toNat := fun e => h (by
      cases pa; cases pa'
      exact congrArg _ (BitVec.eq_of_toNat_eq e))
    have hs' : pa'.toNat % 4096 / 8 = pa.toNat % 4096 / 8 := congrArg Fin.val hs
    have hf' : pa'.toNat / 4096 = pa.toNat / 4096 := hf
    have hm : pa'.toNat % 8 ≠ pa.toNat % 8 := by omega
    have hsame (r : Ram) : r.word pa' = r.word pa := by simp [word, hf, hs]
    simp only [byte, setByte, hsame, word_setWord_self]
    exact byteOf_setByteOf_of_ne (Nat.mod_lt _ (by decide)) hm
  · have hw' : pa'.frameNumber ≠ pa.frameNumber ∨ pa'.wordSlot ≠ pa.wordSlot := by
      by_cases hf : pa'.frameNumber = pa.frameNumber
      · exact Or.inr fun hs => hw ⟨hf, hs⟩
      · exact Or.inl hf
    simp only [byte, setByte, word_setWord_of_ne _ _ hw']

end Ram

end TaskKernel
