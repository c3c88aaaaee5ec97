/-
  TaskKernel.Proofs.Memory.ImageCopy

  Where a program image ends up. A source fills the buffer that it is given and cannot make
  it longer, so loading an image changes the frames that were taken for it and no others; what
  stands in them is the image, and zeros behind it.
-/
import TaskKernel.Archive.Reader
import TaskKernel.Proofs.Memory.FrameLedger
import TaskKernel.Proofs.PageTable.Mapping

namespace TaskKernel

/-! ## Writing bytes -/

namespace Ram

theorem frame_setByte_of_ne (ram : Ram) {pa : PhysAddr} (b : Byte) {n : Nat}
    (h : n ≠ pa.frameNumber) : (ram.setByte pa b).frame n = ram.frame n :=
  frame_setFrame_of_ne ram _ h

theorem frame_writeBytes (ram : Ram) {pa : PhysAddr} {bytes : List Byte} {n : Nat}
    (hfit : pa.toNat + bytes.length < 2 ^ 64)
    (hout : n < pa.frameNumber ∨ pa.toNat + bytes.length ≤ n * pageSize) :
    (ram.writeBytes pa bytes).frame n = ram.frame n := by
  induction bytes generalizing ram pa with
  | nil => rfl
  | cons b bytes ih =>
    rw [List.length_cons] at hfit hout
    -- The bytes do not run past the last address, so the next one is one further on.
    have hnext : (pa.plus 1).toNat = pa.toNat + 1 := Address.toNat_plus_of_lt (by omega)
    unfold Address.frameNumber pageSize at hout
    rw [writeBytes, ih _ (by omega) (by unfold Address.frameNumber pageSize; omega),
      frame_setByte_of_ne]
    unfold Address.frameNumber
    omega

theorem byte_of_frame_eq {ram ram' : Ram} {pa : PhysAddr}
    (h : ram'.frame pa.frameNumber = ram.frame pa.frameNumber) : ram'.byte pa = ram.byte pa := by
  rw [byte, byte, word, word, h]

theorem byte_writeBytes_of_lt (ram : Ram) {pa pa' : PhysAddr} {bytes : List Byte}
    (hfit : pa.toNat + bytes.length ≤ 2 ^ 64) (hlt : pa'.toNat < pa.toNat) :
    (ram.writeBytes pa bytes).byte pa' = ram.byte pa' := by
  induction bytes generalizing ram pa with
  | nil => rfl
  | cons b bytes ih =>
    rw [List.length_cons] at hfit
    have hne : pa' ≠ pa := by
      rintro rfl
      exact Nat.lt_irrefl _ hlt
    cases bytes with
    | nil => exact byte_setByte_of_ne ram b hne
    | cons b' bytes =>
      rw [List.length_cons] at hfit
      have hnext : (pa.plus 1).toNat = pa.toNat + 1 := Address.toNat_plus_of_lt (by omega)
      rw [writeBytes, ih _ (by rw [hnext, List.length_cons]; omega) (by omega),
        byte_setByte_of_ne ram b hne]

/-- Bytes that were written stand where they were written. -/
theorem byte_writeBytes (ram : Ram) {pa : PhysAddr} {bytes : List Byte}
    (hfit : pa.toNat + bytes.length ≤ 2 ^ 64) {i : Nat} (hi : i < bytes.length) :
    (ram.writeBytes pa bytes).byte (pa.plus i) = bytes[i] := by
  induction bytes generalizing ram pa i with
  | nil => exact absurd hi (Nat.not_lt_zero i)
  | cons b bytes ih =>
    rw [List.length_cons] at hfit hi
    cases i with
    | zero =>
      rw [Address.plus_zero, writeBytes, List.getElem_cons_zero]
      cases bytes with
      | nil => exact byte_setByte_self ram pa b
      | cons b' bytes =>
        -- The bytes behind the first one are written further on.
        rw [List.length_cons] at hfit
        have hnext : (pa.plus 1).toNat = pa.toNat + 1 := Address.toNat_plus_of_lt (by omega)
        rw [byte_writeBytes_of_lt _ (by rw [hnext, List.length_cons]; omega) (by omega),
          byte_setByte_self]
    | succ i =>
      have hnext : (pa.plus 1).toNat = pa.toNat + 1 := Address.toNat_plus_of_lt (by omega)
      have hrest : ((ram.setByte pa b).writeBytes (pa.plus 1) bytes).byte ((pa.plus 1).plus i) =
          bytes[i] := ih _ (by omega) (Nat.lt_of_succ_lt_succ hi)
      rw [Address.plus_one_plus] at hrest
      rw [writeBytes, List.getElem_cons_succ, hrest]

end Ram

/-! ## Loading -/

/-- A source whose `load` hands back the buffer that it was given, as far as its length goes. -/
class LawfulImageSource (S : Type) [ImageSource S] : Prop where
  length_load (images : S) (name : String) (buffer : List Byte) :
    (ImageSource.load images name buffer).2.length = buffer.length

theorem length_overlay (bytes buffer : List Byte) :
    (overlay bytes buffer).2.length = buffer.length := by
  simp only [overlay, List.length_append, List.length_take, List.length_drop]
  omega

instance : LawfulImageSource ImageTable where
  length_load table name buffer := by
    show ((table.find? name).elim (0, buffer) (overlay · buffer)).2.length = buffer.length
    cases table.find? name with
    | none => rfl
    | some bytes => exact length_overlay bytes buffer

instance : LawfulImageSource Archive where
  length_load a name buffer := by
    show ((a.find? name).elim (0, buffer) fun m => overlay m.data buffer).2.length = buffer.length
    cases a.find? name with
    | none => rfl
    | some m => exact length_overlay m.data buffer

section

variable {S : Type} [ImageSource S] [LawfulImageSource S]

/-- An image stays within the frames that were taken for it. -/
theorem frame_loadImage (ram : Ram) (images : S) (name : String) {image : PhysAddr} {size n : Nat}
    (haligned : image.pageOffset = 0) (hfit : image.toNat + pageRoundUp size < 2 ^ 64)
    (hout : n ∉ framesFrom image size) :
    (loadImage ram images name image size).frame n = ram.frame n := by
  have hload := LawfulImageSource.length_load images name (ram.readBytes image size)
  rw [Ram.readBytes, List.length_map, List.length_range] at hload
  have hround := le_pageRoundUp size
  rw [framesFrom, Set.mem_Ico, Address.frameNumber] at hout
  rw [Address.pageOffset_eq_mod] at haligned
  have hcount := pageCount_mul size
  rw [loadImage]
  dsimp only
  -- What is written back is as long as what was read.
  refine Ram.frame_writeBytes ram ?_ ?_ <;>
    simp only [Ram.readBytes, List.length_append, List.length_take, List.length_replicate,
      Address.frameNumber, pageSize] at hload hcount ⊢ <;>
    omega

end

/-- An image whose bytes the source puts over the buffer is loaded whole, and the rest of its
    last page is cleared. -/
theorem loadImage_of_overlay {S : Type} [ImageSource S] {images : S} {name : String}
    {bytes : List Byte} (hload : ∀ buffer, ImageSource.load images name buffer = overlay bytes buffer)
    (ram : Ram) (image : PhysAddr) :
    loadImage ram images name image bytes.length = ram.writeBytes image
      (bytes ++ List.replicate (pageRoundUp bytes.length - bytes.length) 0) := by
  have hlength : (ram.readBytes image bytes.length).length = bytes.length := by
    rw [Ram.readBytes, List.length_map, List.length_range]
  rw [loadImage, hload, overlay]
  simp only [hlength, Nat.min_self, List.take_length, List.drop_of_length_le hlength.le,
    List.append_nil]

/-! ## Loading from an archive -/

theorem loadImage_archive {a : Archive} {name : String} {m : Archive.Member}
    (hfind : a.find? name = some m) (ram : Ram) (image : PhysAddr) :
    loadImage ram a name image m.data.length = ram.writeBytes image
      (m.data ++ List.replicate (pageRoundUp m.data.length - m.data.length) 0) := by
  refine loadImage_of_overlay (fun buffer => ?_) ram image
  show ((a.find? name).elim (0, buffer) fun m => overlay m.data buffer) = _
  rw [hfind]
  rfl

/-- What is found byte by byte where an archive's member was loaded. -/
theorem byte_loadImage_archive {a : Archive} {name : String} {m : Archive.Member}
    (hfind : a.find? name = some m) (ram : Ram) {image : PhysAddr}
    (hfit : image.toNat + pageRoundUp m.data.length ≤ 2 ^ 64) {i : Nat}
    (hi : i < pageRoundUp m.data.length) :
    (loadImage ram a name image m.data.length).byte (image.plus i) = m.data[i]?.getD 0 := by
  have hround := le_pageRoundUp m.data.length
  have hlength : (m.data ++ List.replicate (pageRoundUp m.data.length - m.data.length) 0).length =
      pageRoundUp m.data.length := by
    rw [List.length_append, List.length_replicate]
    omega
  rw [loadImage_archive hfind, Ram.byte_writeBytes ram (by rwa [hlength]) (by rwa [hlength])]
  by_cases hdata : i < m.data.length
  · rw [List.getElem_append_left hdata, List.getElem?_eq_getElem hdata, Option.getD_some]
  · rw [List.getElem_append_right (Nat.le_of_not_lt hdata), List.getElem_replicate,
      List.getElem?_eq_none (Nat.le_of_not_lt hdata), Option.getD_none]

end TaskKernel
