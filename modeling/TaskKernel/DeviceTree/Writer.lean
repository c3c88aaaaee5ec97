/-
  TaskKernel.DeviceTree.Writer

  Writing a flattened devicetree: a header, the structure block with every token
  padded to a multiple of four bytes, and the strings block with the names of the
  properties.
-/
import TaskKernel.DeviceTree.Tree

namespace TaskKernel.DeviceTree

/-- A number of 32 bits as four big-endian bytes. -/
def cellBytes (n : Nat) : List Byte :=
  [UInt8.ofNat (n >>> 24), UInt8.ofNat (n >>> 16), UInt8.ofNat (n >>> 8), UInt8.ofNat n]

/-- A number written as a cell reads back. -/
theorem bigEndian_cellBytes {n : Nat} (h : n < 0x1_0000_0000) : bigEndian (cellBytes n) = n := by
  simp only [bigEndian, cellBytes, List.foldl_cons, List.foldl_nil, UInt8.toNat_ofNat']
  omega

/-- Bytes followed by zeros up to a multiple of four. -/
def padded (bytes : List Byte) : List Byte :=
  bytes ++ List.replicate (align4 bytes.length - bytes.length) 0

theorem length_padded (bytes : List Byte) : (padded bytes).length = align4 bytes.length := by
  have := le_align4 bytes.length
  simp only [padded, List.length_append, List.length_replicate]
  omega

namespace Token

/-- The bytes of a token; the name of a property stands at `nameOffset` of the strings. -/
def toBytes (nameOffset : Nat) : Token → List Byte
  | beginNode name => cellBytes 1 ++ padded (encodeText name ++ [0])
  | endNode => cellBytes 2
  | property _ value =>
    cellBytes 3 ++ cellBytes value.length ++ cellBytes nameOffset ++ padded value
  | nop => cellBytes 4
  | finish => cellBytes 9

/-- What a token adds to the strings. -/
def stringBytes : Token → List Byte
  | property name _ => encodeText name ++ [0]
  | _ => []

end Token

/-- Tokens one after the other, where the strings before take up `used` bytes. -/
def structureBytes (used : Nat) : List Token → List Byte
  | [] => []
  | token :: tokens =>
    token.toBytes used ++ structureBytes (used + token.stringBytes.length) tokens

/-- The blob with the given tokens; the end mark is added. -/
def writeTokens (tokens : List Token) : List Byte :=
  let block := structureBytes 0 (tokens ++ [.finish])
  let strings := tokens.flatMap Token.stringBytes
  let stringsOffset := headerLength + block.length
  let header := [treeMagic, stringsOffset + strings.length, headerLength, stringsOffset, 0, 17, 16, 0,
    strings.length, block.length]
  header.flatMap cellBytes ++ block ++ strings

def Tree.write (t : Tree) : List Byte := writeTokens t.tokens

end TaskKernel.DeviceTree
