/-
  TaskKernel.Text

  Text inside byte data: UTF-8 names, and the parts of a slash-separated path.
-/
import TaskKernel.Word

namespace TaskKernel

/-! ## UTF-8 -/

/-- The text that the bytes encode, if they are valid UTF-8. -/
def decodeText? (bytes : List Byte) : Option String := String.fromUTF8? bytes.toByteArray

/-- The UTF-8 bytes of a text. -/
def encodeText (text : String) : List Byte := text.toUTF8.data.toList

/-- The bytes before the first zero, or all of them. -/
def untilNul (bytes : List Byte) : List Byte := bytes.takeWhile (· != 0)

theorem encodeText_eq (text : String) :
    encodeText text = text.toList.flatMap String.utf8EncodeChar := by
  have h := String.utf8Encode_toList (b := text)
  rw [encodeText, String.toUTF8, ← h, List.utf8Encode, List.data_toByteArray]

/-- Text written as bytes reads back. -/
theorem decodeText?_encodeText (text : String) : decodeText? (encodeText text) = some text := by
  have h : (encodeText text).toByteArray = text.toByteArray := by
    rw [encodeText_eq]
    exact String.utf8Encode_toList
  rw [decodeText?, h, String.fromUTF8?, dif_pos text.isValidUTF8]
  rfl

/-- Bytes that read as text are the bytes of that text. -/
theorem encodeText_of_decodeText? {bytes : List Byte} {text : String}
    (h : decodeText? bytes = some text) : encodeText text = bytes := by
  rw [decodeText?, String.fromUTF8?] at h
  split at h
  · cases h
    show bytes.toByteArray.data.toList = bytes
    rw [List.data_toByteArray]
  · cases h

/-- Texts with the same bytes are the same. -/
theorem encodeText_injective {s t : String} (h : encodeText s = encodeText t) : s = t := by
  have hdecoded := congrArg decodeText? h
  rwa [decodeText?_encodeText, decodeText?_encodeText, Option.some.injEq] at hdecoded

/-- The characters that seven-bit bytes number. -/
def asciiChars (bytes : List Byte) : List Char := bytes.map fun b => Char.ofNat b.toNat

theorem utf8EncodeChar_ofNat {b : Byte} (h : b < 128) :
    String.utf8EncodeChar (Char.ofNat b.toNat) = [b] := by
  have hb : b.toNat < 128 := UInt8.lt_iff_toNat_lt.1 h
  have hvalid : b.toNat.isValidChar := Or.inl (by omega)
  have hval : (Char.ofNat b.toNat).val.toNat = b.toNat := by
    rw [Char.ofNat, dif_pos hvalid]
    rfl
  rw [String.utf8EncodeChar]
  simp only [hval]
  rw [if_pos (by omega), UInt8.ofNat_toNat]

theorem encodeText_asciiChars {bytes : List Byte} (h : ∀ b ∈ bytes, b < 128) :
    encodeText (String.ofList (asciiChars bytes)) = bytes := by
  rw [encodeText_eq, String.toList_ofList, asciiChars]
  induction bytes with
  | nil => rfl
  | cons b bytes ih =>
      rw [List.map_cons, List.flatMap_cons, utf8EncodeChar_ofNat (h b List.mem_cons_self),
        ih fun b' hmem => h b' (List.mem_cons_of_mem b hmem)]
      rfl

theorem zero_notMem_utf8EncodeChar {c : Char} (h : c ≠ '\x00') :
    (0 : Byte) ∉ String.utf8EncodeChar c := by
  have hpos : c.val.toNat ≠ 0 := by
    intro hzero
    exact h (Char.ext (UInt32.toNat_inj.1 hzero))
  -- One byte holds the whole value; of several, each has its high bit set.
  fun_cases String.utf8EncodeChar c
  all_goals
    simp only [List.mem_cons, List.not_mem_nil, or_false, ← UInt8.toNat_inj, UInt8.toNat_ofNat',
      UInt8.toNat_zero]
    omega

/-- Text without a zero character has no zero byte. -/
theorem zero_notMem_encodeText {text : String} (h : '\x00' ∉ text.toList) :
    (0 : Byte) ∉ encodeText text := by
  rw [encodeText_eq, List.mem_flatMap]
  rintro ⟨c, hmem, hzero⟩
  exact zero_notMem_utf8EncodeChar (fun heq => h (heq ▸ hmem)) hzero

/-- Terminated bytes are read up to their terminator. -/
theorem untilNul_append_zero {bytes : List Byte} (h : (0 : Byte) ∉ bytes) (rest : List Byte) :
    untilNul (bytes ++ 0 :: rest) = bytes := by
  rw [untilNul, List.takeWhile_append_of_pos, List.takeWhile_cons_of_neg, List.append_nil]
  · simp
  · intro b hmem
    simp only [bne_iff_ne, ne_eq]
    rintro rfl
    exact h hmem

/-! ## Paths -/

/-- The pieces between slashes, empty ones included. -/
def splitAtSlash : List Char → List (List Char)
  | [] => [[]]
  | c :: cs =>
    if c = '/' then [] :: splitAtSlash cs
    else match splitAtSlash cs with
      | [] => [[c]]
      | part :: parts => (c :: part) :: parts

/-- The parts of a path; leading, trailing and repeated slashes count for nothing. -/
def pathParts (path : String) : List (List Char) :=
  (splitAtSlash path.toList).filter fun part => !part.isEmpty

/-! ## Alignment -/

/-- The least multiple of four that is not below `n`. -/
def align4 (n : Nat) : Nat := (n + 3) / 4 * 4

theorem le_align4 (n : Nat) : n ≤ align4 n := by
  simp only [align4]
  omega

theorem align4_dvd (n : Nat) : 4 ∣ align4 n := Nat.dvd_mul_left 4 _

theorem align4_of_dvd {n : Nat} (h : 4 ∣ n) : align4 n = n := by
  simp only [align4]
  omega

theorem align4_lt (n : Nat) : align4 n < n + 4 := by
  simp only [align4]
  omega

end TaskKernel
