/-
  TaskKernel.PageTable.UserAccess

  Reading and writing a task's memory by its own addresses. A range is first
  checked against the end of the user half, then visited page by page; each page
  is translated when it is reached, so pages before a bad one stay copied.
-/
import TaskKernel.Layout
import TaskKernel.PageTable.AddressSpace

namespace TaskKernel

/-- Why an access to user memory failed. -/
inductive AccessError where
  /-- The address lies outside the user half or is not mapped. -/
  | badAddress (va : VirtAddr)
  /-- A name is not ASCII or has no terminator. -/
  | badName
deriving DecidableEq, Repr

def AccessError.code : AccessError → String
  | badAddress _ => "BadAddress"
  | badName => "BadName"

def AccessError.message : AccessError → String
  | badAddress va => "bad user address " ++ hex va.toNat
  | badName => "bad program name"

instance : Reported AccessError := ⟨AccessError.code, AccessError.message⟩

/-- Longest program name, terminator excluded. -/
def maxNameLength : Nat := 63

/-- True when the `len` bytes from `va` on end within the user half. -/
def inUserSpace (va : VirtAddr) (len : Nat) : Bool := va.toNat + len ≤ Layout.userSpaceEnd

namespace AddressSpace

/-- Bytes from `va` to the end of its page, at most `len`. -/
def pieceLength (va : VirtAddr) (len : Nat) : Nat := min (pageSize - va.pageOffset) len

theorem pieceLength_pos (va : VirtAddr) {len : Nat} (h : 0 < len) : 0 < pieceLength va len := by
  have := va.pageOffset_lt
  simp only [pieceLength]
  omega

theorem pieceLength_le (va : VirtAddr) (len : Nat) : pieceLength va len ≤ len := by
  simp only [pieceLength]
  omega

/-! ## Reading -/

/-- The bytes of a range up to the first page that is not mapped. -/
def readPieces (space : AddressSpace) (ram : Ram) (va : VirtAddr) (len : Nat) :
    Except AccessError Unit × List Byte :=
  if h : 0 < len then
    match space.translate ram va with
    | none => (.error (.badAddress va), [])
    | some pa =>
      have := pieceLength_pos va h
      have := pieceLength_le va len
      let (result, rest) :=
        space.readPieces ram (va.plus (pieceLength va len)) (len - pieceLength va len)
      (result, ram.readBytes pa (pieceLength va len) ++ rest)
  else (.ok (), [])
termination_by len
decreasing_by omega

/-- Fills `buffer` from the task's memory at `va`. Where the copy stops early, the rest
    of the buffer keeps its contents. -/
def copyFrom (space : AddressSpace) (ram : Ram) (va : VirtAddr) (buffer : List Byte) :
    Except AccessError Unit × List Byte :=
  if inUserSpace va buffer.length then
    let (result, bytes) := space.readPieces ram va buffer.length
    (result, bytes ++ buffer.drop bytes.length)
  else (.error (.badAddress va), buffer)

/-! ## Writing -/

/-- Memory after writing `bytes` to a range, up to the first page that is not mapped. -/
def writePieces (space : AddressSpace) (ram : Ram) (va : VirtAddr) (bytes : List Byte) :
    Except AccessError Unit × Ram :=
  if h : 0 < bytes.length then
    match space.translate ram va with
    | none => (.error (.badAddress va), ram)
    | some pa =>
      have := pieceLength_pos va h
      let n := pieceLength va bytes.length
      space.writePieces (ram.writeBytes pa (bytes.take n)) (va.plus n) (bytes.drop n)
  else (.ok (), ram)
termination_by bytes.length
decreasing_by simp only [List.length_drop]; omega

def copyTo (space : AddressSpace) (ram : Ram) (va : VirtAddr) (bytes : List Byte) :
    Except AccessError Unit × Ram :=
  if inUserSpace va bytes.length then space.writePieces ram va bytes
  else (.error (.badAddress va), ram)

/-! ## Names -/

/-- The characters before the terminator, which must come within `room` bytes. -/
def readChars (space : AddressSpace) (ram : Ram) (va : VirtAddr) :
    Nat → Except AccessError (List Char)
  | 0 => .error .badName
  | room + 1 =>
    match space.copyFrom ram va [0] with
    | (.error e, _) => .error e
    | (.ok (), bytes) =>
      let byte := bytes.headD 0
      if byte = 0 then .ok []
      else if 128 ≤ byte then .error .badName
      else (space.readChars ram (va.plus 1) room).map (Char.ofNat byte.toNat :: ·)

/-- Reads a terminated ASCII name of at most `maxNameLength` bytes. -/
def readName (space : AddressSpace) (ram : Ram) (va : VirtAddr) : Except AccessError String :=
  (space.readChars ram va (maxNameLength + 1)).map String.ofList

end AddressSpace

end TaskKernel
