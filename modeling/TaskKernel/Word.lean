/-
  TaskKernel.Word

  Machine words, the bytes inside them, and how numbers are written in messages.
  A 64-bit word holds eight bytes, least significant first; `byteOf` and
  `setByteOf` are a lens on byte `k`.
-/

namespace TaskKernel

/-- A 64-bit machine word. -/
abbrev Word := BitVec 64

/-- One byte of memory or of a file. -/
abbrev Byte := UInt8

/-! ## Bytes of a word -/

/-- Byte `k` of `w`, counted from the least significant end. -/
def byteOf (w : Word) (k : Nat) : Byte :=
  UInt8.ofBitVec (w.extractLsb' (8 * k) 8)

/-- The word `w` with byte `k` replaced by `b`. -/
def setByteOf (w : Word) (k : Nat) (b : Byte) : Word :=
  (w &&& ~~~(255#64 <<< (8 * k))) ||| (b.toBitVec.setWidth 64 <<< (8 * k))

/-- Bit `j` of the word whose byte `k` holds all ones and whose other bytes are zero. -/
theorem getLsbD_byteMask {k j : Nat} (hk : k < 8) :
    (255#64 <<< (8 * k)).getLsbD j = decide (8 * k ≤ j ∧ j < 8 * k + 8) := by
  have h255 (i : Nat) : Nat.testBit 255 i = decide (i < 8) := Nat.testBit_two_pow_sub_one 8 i
  rw [BitVec.getLsbD_shiftLeft, BitVec.getLsbD_ofNat, h255]
  by_cases h : 8 * k ≤ j ∧ j < 8 * k + 8
  · have h1 : j < 64 := by omega
    have h2 : ¬ j < 8 * k := by omega
    have h3 : j - 8 * k < 8 := by omega
    have h4 : j - 8 * k < 64 := by omega
    simp [h, h1, h2, h3, h4]
  · rw [decide_eq_false h]
    by_cases h2 : j < 8 * k
    · simp [h2]
    · have h3 : ¬ j - 8 * k < 8 := by omega
      simp [h3]

/-- Bit `i` of byte `k` is bit `8 * k + i` of the word. -/
theorem getLsbD_byteOf {w : Word} {k i : Nat} :
    (byteOf w k).toBitVec.getLsbD i = (decide (i < 8) && w.getLsbD (8 * k + i)) := by
  simp [byteOf, BitVec.getLsbD_extractLsb']

/-- Bit `j` of a word after byte `k` was replaced. -/
theorem getLsbD_setByteOf {w : Word} {k j : Nat} {b : Byte} (hk : k < 8) :
    (setByteOf w k b).getLsbD j =
      if 8 * k ≤ j ∧ j < 8 * k + 8 then b.toBitVec.getLsbD (j - 8 * k) else w.getLsbD j := by
  simp only [setByteOf, BitVec.getLsbD_or, BitVec.getLsbD_and, BitVec.getLsbD_not,
    getLsbD_byteMask hk, BitVec.getLsbD_shiftLeft, BitVec.getLsbD_setWidth]
  by_cases h : 8 * k ≤ j ∧ j < 8 * k + 8
  · have h1 : j < 64 := by omega
    have h2 : ¬ j < 8 * k := by omega
    have h3 : j - 8 * k < 64 := by omega
    simp [h, h1, h2, h3]
  · rw [if_neg h]
    by_cases hj : j < 64
    · by_cases h1 : j < 8 * k
      · simp [h, h1, hj]
      · have h2 : b.toBitVec.getLsbD (j - 8 * k) = false :=
          BitVec.getLsbD_of_ge _ _ (by omega)
        simp [h, h2, hj]
    · simp [hj, BitVec.getLsbD_of_ge w j (by omega)]

/-- Writing a byte and reading it back gives the byte written. -/
theorem byteOf_setByteOf_self {w : Word} {k : Nat} {b : Byte} (hk : k < 8) :
    byteOf (setByteOf w k b) k = b := by
  apply UInt8.toBitVec_inj.1
  apply BitVec.eq_of_getLsbD_eq
  intro i hi
  have h : 8 * k ≤ 8 * k + i ∧ 8 * k + i < 8 * k + 8 := by omega
  rw [getLsbD_byteOf, getLsbD_setByteOf hk, if_pos h]
  simp [hi]

/-- Writing byte `k` leaves the other bytes as they are. -/
theorem byteOf_setByteOf_of_ne {w : Word} {j k : Nat} {b : Byte} (hk : k < 8) (h : j ≠ k) :
    byteOf (setByteOf w k b) j = byteOf w j := by
  apply UInt8.toBitVec_inj.1
  apply BitVec.eq_of_getLsbD_eq
  intro i hi
  have h : ¬ (8 * k ≤ 8 * j + i ∧ 8 * j + i < 8 * k + 8) := by omega
  rw [getLsbD_byteOf, getLsbD_byteOf, getLsbD_setByteOf hk, if_neg h]

/-! ## Errors in text -/

/-- Errors that can be shown to people. -/
class Reported (ε : Type) where
  /-- Short name of an error; where it wraps another one, that one's after a dot. -/
  code : ε → String
  /-- What an error says. -/
  message : ε → String

/-! ## Numbers in text -/

/-- Digits of `n` to base sixteen, lower case, without leading zeros. -/
def hexDigits (n : Nat) : String := String.ofList (Nat.toDigits 16 n)

/-- The number `n` as `0x` and its base-sixteen digits. -/
def hex (n : Nat) : String := "0x" ++ hexDigits n

/-- The number `n` as `0x` and at least sixteen base-sixteen digits. -/
def hexPadded (n : Nat) : String :=
  let digits := Nat.toDigits 16 n
  "0x" ++ String.ofList (List.replicate (16 - digits.length) '0' ++ digits)

/-- Value of a base-sixteen digit in either case. -/
def hexDigit? (c : Char) : Option Nat :=
  if '0' ≤ c ∧ c ≤ '9' then some (c.toNat - 48)
  else if 'a' ≤ c ∧ c ≤ 'f' then some (c.toNat - 87)
  else if 'A' ≤ c ∧ c ≤ 'F' then some (c.toNat - 55)
  else none

/-- Value of a run of base-sixteen digits, `acc` being what stands before it. -/
def hexValue? (acc : Nat) : List Char → Option Nat
  | [] => some acc
  | c :: cs =>
    match hexDigit? c with
    | none => none
    | some d => hexValue? (16 * acc + d) cs

/-- The number written as `0x` and base-sixteen digits. -/
def parseHex? (text : String) : Option Nat :=
  match text.toList with
  | '0' :: 'x' :: c :: cs => hexValue? 0 (c :: cs)
  | _ => none

end TaskKernel
