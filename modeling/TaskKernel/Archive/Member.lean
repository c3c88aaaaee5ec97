/-
  TaskKernel.Archive.Member

  One member of a "newc" archive: a 110-byte header of ASCII text, the path name
  with its terminator, and the data. Name and data are padded so that what follows
  starts at a multiple of four, counted from the start of the archive.
-/
import TaskKernel.Text

namespace TaskKernel.Archive

/-! ## Members -/

/-- A file or directory in an archive. -/
structure Member where
  name : String
  mode : BitVec 32
  data : List Byte
deriving DecidableEq, Repr

def Member.isDirectory (m : Member) : Bool := m.mode &&& 0o170000#32 == 0o040000#32

def trailerName : String := "TRAILER!!!"

/-- Why an archive could not be read; each error gives the offset of the member. -/
inductive ArchiveError where
  | badMagic (offset : Nat)
  /-- A header field is not hexadecimal. -/
  | badField (offset : Nat)
  /-- Header, name or data run past the end. -/
  | truncated (offset : Nat)
  /-- The name is not UTF-8. -/
  | badName (offset : Nat)
deriving DecidableEq, Repr

def ArchiveError.code : ArchiveError → String
  | badMagic _ => "BadMagic"
  | badField _ => "BadField"
  | truncated _ => "Truncated"
  | badName _ => "BadName"

def ArchiveError.message : ArchiveError → String
  | badMagic offset => "bad cpio magic at offset " ++ hex offset
  | badField offset => "bad cpio header field at offset " ++ hex offset
  | truncated offset => "cpio member at offset " ++ hex offset ++ " is truncated"
  | badName offset => "cpio name at offset " ++ hex offset ++ " is not UTF-8"

instance : Reported ArchiveError := ⟨ArchiveError.code, ArchiveError.message⟩

/-! ## Headers -/

/-- The text `070701` that every header starts with. -/
def magic : List Byte := [0x30, 0x37, 0x30, 0x37, 0x30, 0x31]

/-- Bytes of a header: the magic and thirteen fields of eight digits. -/
def headerLength : Nat := 110

def modeField : Nat := 1

def fileSizeField : Nat := 6

def nameSizeField : Nat := 11

/-- Value of header field number `i`. -/
def field? (header : List Byte) (i : Nat) : Option Nat :=
  hexValue? 0 (((header.drop (magic.length + 8 * i)).take 8).map fun b => Char.ofNat b.toNat)

/-! ## Reading -/

/-- A member read from the start of the remaining bytes, and how many bytes it takes
    up with its padding. -/
structure Parsed where
  member : Member
  length : Nat
deriving DecidableEq, Repr

/-- Reads the name and data that follow a header with the given fields. -/
def parseBody (offset : Nat) (bytes : List Byte) (mode fileSize nameSize : Nat) :
    Except ArchiveError Parsed :=
  if bytes.length < headerLength + nameSize then .error (.truncated offset)
  else
    match decodeText? (untilNul ((bytes.drop headerLength).take nameSize)) with
    | none => .error (.badName offset)
    | some name =>
      -- Offsets are aligned in the archive, `bytes` starts at `offset`.
      let dataStart := align4 (offset + headerLength + nameSize) - offset
      if bytes.length < dataStart + fileSize then .error (.truncated offset)
      else
        .ok {
          member := ⟨name, BitVec.ofNat 32 mode, (bytes.drop dataStart).take fileSize⟩
          length := align4 (offset + dataStart + fileSize) - offset }

/-- Reads the member at `offset`, where the archive goes on with `bytes`. -/
def parse (offset : Nat) (bytes : List Byte) : Except ArchiveError Parsed :=
  if bytes.length < headerLength then .error (.truncated offset)
  else if bytes.take magic.length ≠ magic then .error (.badMagic offset)
  else
    match field? bytes modeField, field? bytes fileSizeField, field? bytes nameSizeField with
    | some mode, some fileSize, some nameSize => parseBody offset bytes mode fileSize nameSize
    | _, _, _ => .error (.badField offset)

/-- A member takes up at least its header, and all of it was there. -/
theorem headerLength_le_of_parse {offset : Nat} {bytes : List Byte} {p : Parsed}
    (h : parse offset bytes = .ok p) : headerLength ≤ bytes.length ∧ headerLength ≤ p.length := by
  unfold parse at h
  split at h
  · cases h
  · split at h
    · cases h
    · split at h
      · rename_i mode fileSize nameSize _ _ _
        unfold parseBody at h
        split at h
        · cases h
        · split at h
          · cases h
          · simp only at h
            split at h
            · cases h
            · cases h
              refine ⟨by omega, ?_⟩
              have h1 := le_align4 (offset + headerLength + nameSize)
              have h2 := le_align4
                (offset + (align4 (offset + headerLength + nameSize) - offset) + fileSize)
              simp only
              omega
      · cases h

end TaskKernel.Archive
