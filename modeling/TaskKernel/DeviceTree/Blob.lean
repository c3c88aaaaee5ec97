/-
  TaskKernel.DeviceTree.Blob

  A flattened devicetree held in memory: its header, and reading one token of the
  structure block at a time.
-/
import TaskKernel.Address
import TaskKernel.Text

namespace TaskKernel.DeviceTree

/-! ## Errors -/

/-- Why a devicetree could not be read. -/
inductive TreeError where
  | badMagic (magic : Nat)
  /-- A header offset or a token leads outside the data. -/
  | truncated (offset : Nat)
  | badToken (offset token : Nat)
  /-- A name has no terminator or is not UTF-8. -/
  | badString (offset : Nat)
  | tooDeep
deriving DecidableEq, Repr

def TreeError.code : TreeError → String
  | badMagic _ => "BadMagic"
  | truncated _ => "Truncated"
  | badToken _ _ => "BadToken"
  | badString _ => "BadString"
  | tooDeep => "TooDeep"

def TreeError.message : TreeError → String
  | badMagic magic => "bad devicetree magic " ++ hex magic
  | truncated offset => "devicetree truncated at " ++ hex offset
  | badToken offset token =>
    "bad devicetree token " ++ toString token ++ " at " ++ hex offset
  | badString offset => "bad devicetree string at " ++ hex offset
  | tooDeep => "devicetree nested too deeply"

instance : Reported TreeError := ⟨TreeError.code, TreeError.message⟩

/-! ## Numbers and strings -/

/-- The number that big-endian bytes stand for. -/
def bigEndian (bytes : List Byte) : Nat := bytes.foldl (fun n b => 256 * n + b.toNat) 0

/-- The four-byte big-endian number at `offset`. -/
def cell (bytes : List Byte) (offset : Nat) : Except TreeError Nat :=
  if offset + 4 ≤ bytes.length then .ok (bigEndian ((bytes.drop offset).take 4))
  else .error (.truncated offset)

/-- The terminated string at `offset`. -/
def stringFrom (bytes : List Byte) (offset : Nat) : Except TreeError String :=
  if bytes.length < offset then .error (.truncated offset)
  else
    let rest := bytes.drop offset
    if rest.contains 0 then
      match decodeText? (untilNul rest) with
      | none => .error (.badString offset)
      | some text => .ok text
    else .error (.badString offset)

/-- The value of a property that holds one or two cells. -/
def readCells (value : List Byte) : Option Word :=
  if value.length = 4 ∨ value.length = 8 then some (BitVec.ofNat 64 (bigEndian value)) else none

/-! ## The header -/

/-- First number of every devicetree. -/
def treeMagic : Nat := 0xd00dfeed

def headerLength : Nat := 40

/-- A devicetree whose header was checked. -/
structure Blob where
  /-- The whole tree, from the header to its total size. -/
  bytes : List Byte
  structureOffset : Nat
  stringsOffset : Nat
deriving DecidableEq, Repr

namespace Blob

/-- Reads the header. Bytes behind the total size are left out. -/
def ofBytes (bytes : List Byte) : Except TreeError Blob := do
  let magic ← cell bytes 0
  if magic ≠ treeMagic then throw (.badMagic magic)
  let total ← cell bytes 4
  if bytes.length < total then throw (.truncated total)
  -- From here on nothing behind the tree counts.
  let bytes := bytes.take total
  if total < headerLength then throw (.truncated total)
  let structureOffset ← cell bytes 8
  let stringsOffset ← cell bytes 12
  if total ≤ structureOffset ∨ total < stringsOffset then
    throw (.truncated (max structureOffset stringsOffset))
  return ⟨bytes, structureOffset, stringsOffset⟩

/-- Total size of a tree found in memory, from its first eight bytes. -/
def sizeInMemory (memory : List Byte) : Except TreeError Nat := do
  let head := memory.take 8
  let magic ← cell head 0
  if magic ≠ treeMagic then throw (.badMagic magic)
  cell head 4

/-- Reads a tree found in memory, where its end is known from its header only. -/
def ofMemory (memory : List Byte) : Except TreeError Blob := do
  let total ← sizeInMemory memory
  ofBytes (memory.take total)

def totalSize (b : Blob) : Nat := b.bytes.length

end Blob

/-! ## Tokens -/

/-- One token of the structure block. -/
inductive Token where
  | beginNode (name : String)
  | endNode
  | property (name : String) (value : List Byte)
  | nop
  | finish
deriving DecidableEq, Repr

/-- A token and the offset of the one after it. -/
structure ReadToken where
  token : Token
  next : Nat
deriving DecidableEq, Repr

namespace Blob

/-- The node name at `offset`. -/
def readBegin (b : Blob) (offset : Nat) : Except TreeError ReadToken :=
  match stringFrom b.bytes offset with
  | .error e => .error e
  | .ok name => .ok ⟨.beginNode name, align4 (offset + (encodeText name).length + 1)⟩

/-- The property at `offset`: length, position of its name among the strings, value. -/
def readProperty (b : Blob) (offset : Nat) : Except TreeError ReadToken :=
  match cell b.bytes offset, cell b.bytes (offset + 4) with
  | .error e, _ => .error e
  | _, .error e => .error e
  | .ok length, .ok nameOffset =>
    let start := offset + 8
    if b.bytes.length < start + length then .error (.truncated start)
    else
      match stringFrom b.bytes (b.stringsOffset + nameOffset) with
      | .error e => .error e
      | .ok name =>
        .ok ⟨.property name ((b.bytes.drop start).take length), align4 (start + length)⟩

/-- The token at `offset`. -/
def readToken (b : Blob) (offset : Nat) : Except TreeError ReadToken :=
  match cell b.bytes offset with
  | .error e => .error e
  | .ok 1 => b.readBegin (offset + 4)
  | .ok 2 => .ok ⟨.endNode, offset + 4⟩
  | .ok 3 => b.readProperty (offset + 4)
  | .ok 4 => .ok ⟨.nop, offset + 4⟩
  | .ok 9 => .ok ⟨.finish, offset + 4⟩
  | .ok token => .error (.badToken offset token)

/-- A token lies inside the data and takes at least four bytes. -/
theorem next_of_readToken {b : Blob} {offset : Nat} {r : ReadToken}
    (h : b.readToken offset = .ok r) : offset + 4 ≤ b.bytes.length ∧ offset + 4 ≤ r.next := by
  have hcell (n : Nat) (hn : cell b.bytes offset = .ok n) : offset + 4 ≤ b.bytes.length := by
    unfold cell at hn
    split at hn
    · assumption
    · cases hn
  unfold readToken at h
  split at h
  · cases h
  · rename_i hc
    refine ⟨hcell _ hc, ?_⟩
    unfold readBegin at h
    split at h
    · cases h
    · cases h
      have := le_align4 (offset + 4 + (encodeText ‹String›).length + 1)
      simp only
      omega
  · rename_i hc
    cases h
    exact ⟨hcell _ hc, Nat.le_refl _⟩
  · rename_i hc
    refine ⟨hcell _ hc, ?_⟩
    unfold readProperty at h
    split at h
    · cases h
    · cases h
    · rename_i length nameOffset _ _
      simp only at h
      split at h
      · cases h
      · split at h
        · cases h
        · cases h
          have := le_align4 (offset + 4 + 8 + length)
          simp only
          omega
  · rename_i hc
    cases h
    exact ⟨hcell _ hc, Nat.le_refl _⟩
  · rename_i hc
    cases h
    exact ⟨hcell _ hc, Nat.le_refl _⟩
  · cases h

/-! ## The structure block -/

/-- Tokens of a structure block and how it ends: well, or at a token that cannot be
    read. The token that marks the end is left out. -/
structure TokenRun where
  tokens : List Token
  ending : Except TreeError Unit

/-- The tokens from `offset` on. -/
def tokensFrom (b : Blob) (offset : Nat) : TokenRun :=
  match h : b.readToken offset with
  | .error e => ⟨[], .error e⟩
  | .ok r =>
    have := next_of_readToken h
    if r.token = .finish then ⟨[], .ok ()⟩
    else
      let run := b.tokensFrom r.next
      { run with tokens := r.token :: run.tokens }
termination_by b.bytes.length - offset

def tokens (b : Blob) : TokenRun := b.tokensFrom b.structureOffset

end Blob

end TaskKernel.DeviceTree
