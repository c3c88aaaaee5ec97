/-
  TaskKernel.Archive.Writer

  Writing a "newc" archive: each member with its header and padding, then a
  trailer.
-/
import TaskKernel.Archive.Reader

namespace TaskKernel.Archive

/-- The lower-case digit for a value below sixteen. -/
def hexDigitByte (d : Nat) : Byte := UInt8.ofNat (if d < 10 then 48 + d else 87 + d)

/-- A header field: eight hexadecimal digits. -/
def fieldBytes (n : Nat) : List Byte :=
  (List.range 8).map fun i => hexDigitByte ((n >>> (4 * (7 - i))) % 16)

/-- Zeros from `offset` up to the next multiple of four. -/
def padding (offset : Nat) : List Byte := List.replicate (align4 offset - offset) 0

namespace Member

/-- Length of the name with its terminator. -/
def nameSize (m : Member) : Nat := (encodeText m.name).length + 1

def header (m : Member) : List Byte :=
  magic ++ ([1, m.mode.toNat, 0, 0, 1, 0, m.data.length, 0, 0, 0, 0, m.nameSize, 0].flatMap fieldBytes)

/-- A member written at `offset`. -/
def toBytes (offset : Nat) (m : Member) : List Byte :=
  let head := m.header ++ encodeText m.name ++ [0]
  let head := head ++ padding (offset + head.length)
  let body := head ++ m.data
  body ++ padding (offset + body.length)

def trailer : Member := ⟨trailerName, 0, []⟩

end Member

/-- Members written one after the other from `offset` on. -/
def membersToBytes (offset : Nat) : List Member → List Byte
  | [] => []
  | m :: members =>
    let bytes := m.toBytes offset
    bytes ++ membersToBytes (offset + bytes.length) members

def write (members : List Member) : List Byte := membersToBytes 0 (members ++ [.trailer])

end TaskKernel.Archive
