/-
  TaskKernel.Archive.Reader

  Reading a "newc" archive held in memory: its members in order, up to the trailer
  or the first one that cannot be read, and images looked up by path.
-/
import TaskKernel.Archive.Member
import TaskKernel.Launch

namespace TaskKernel

namespace Archive

/-! ## Stepping through members -/

/-- A position between two members. -/
structure Cursor where
  offset : Nat
  /-- The archive from `offset` on. -/
  rest : List Byte
  /-- Set by the trailer and by an error. -/
  done : Bool
deriving DecidableEq, Repr

namespace Cursor

/-- The next member or the error that takes its place; nothing at the end. -/
def next (c : Cursor) : Option (Except ArchiveError Member) × Cursor :=
  if c.done then (none, c)
  else
    match parse c.offset c.rest with
    | .error e => (some (.error e), { c with done := true })
    | .ok p =>
      -- The trailer is a member like any other and has to be complete.
      if p.member.name = trailerName then (none, { c with done := true })
      else
        (some (.ok p.member),
          { c with offset := c.offset + p.length, rest := c.rest.drop p.length })

/-- Bounds the number of steps left. -/
def stepsLeft (c : Cursor) : Nat := c.rest.length + if c.done then 0 else 1

theorem stepsLeft_next {c c' : Cursor} {item : Except ArchiveError Member}
    (h : c.next = (some item, c')) : c'.stepsLeft < c.stepsLeft := by
  unfold next at h
  split at h
  · cases h
  · rename_i hdone
    split at h
    · cases h
      simp [stepsLeft, hdone]
    · rename_i p hp
      have hlen := headerLength_le_of_parse hp
      split at h
      · cases h
      · cases h
        simp only [headerLength] at hlen
        simp only [stepsLeft, List.length_drop]
        omega

/-- Everything from the cursor on. -/
def toList (c : Cursor) : List (Except ArchiveError Member) :=
  match h : c.next with
  | (none, _) => []
  | (some item, c') =>
    have := stepsLeft_next h
    item :: c'.toList
termination_by c.stepsLeft

/-- The cursor behind the last item. -/
def toEnd (c : Cursor) : Cursor :=
  match h : c.next with
  | (none, c') => c'
  | (some _, c') =>
    have := stepsLeft_next h
    c'.toEnd
termination_by c.stepsLeft

end Cursor

/-- The members before the first error. -/
def leadingMembers : List (Except ArchiveError Member) → List Member
  | .ok m :: items => m :: leadingMembers items
  | _ => []

/-! ## Paths -/

def dropDotSlash : List Char → List Char
  | '.' :: '/' :: path => path
  | path => path

def dropSlash : List Char → List Char
  | '/' :: path => path
  | path => path

/-- The form in which paths are compared: one leading `./`, then one leading `/` are
    left out. -/
def plainPath (path : String) : List Char := dropSlash (dropDotSlash path.toList)

end Archive

/-! ## Archives -/

/-- An archive held in memory. -/
structure Archive where
  bytes : List Byte
deriving DecidableEq, Repr

namespace Archive

/-- Accepts bytes that start with a header. -/
def ofBytes (bytes : List Byte) : Except ArchiveError Archive :=
  if bytes.length < headerLength then .error (.truncated 0)
  else if bytes.take magic.length ≠ magic then .error (.badMagic 0)
  else .ok ⟨bytes⟩

def length (a : Archive) : Nat := a.bytes.length

def isEmpty (a : Archive) : Bool := a.bytes.isEmpty

def start (a : Archive) : Cursor := ⟨0, a.bytes, false⟩

/-- Members in order; an error can only be the last item. -/
def entries (a : Archive) : List (Except ArchiveError Member) := a.start.toList

/-- Members before the trailer or the first error. -/
def members (a : Archive) : List Member := leadingMembers a.entries

/-- The first member that is no directory and has this path. -/
def find? (a : Archive) (path : String) : Option Member :=
  a.members.find? fun m => !m.isDirectory && plainPath m.name == plainPath path

/-- Most members that a listing shows. -/
def maxListing : Nat := 32

/-- Names and sizes of the first members. -/
def listing (a : Archive) : List (String × Nat) :=
  (a.members.take maxListing).map fun m => (m.name, m.data.length)

instance : ImageSource Archive where
  sizeOf a path := (a.find? path).elim 0 fun m => m.data.length
  load a path buffer := (a.find? path).elim (0, buffer) fun m => overlay m.data buffer

end Archive

end TaskKernel
