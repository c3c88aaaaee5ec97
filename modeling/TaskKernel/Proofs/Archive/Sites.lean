/-
  TaskKernel.Proofs.Archive.Sites

  One member of an archive by its offsets in the whole of it. A reader goes on with what is
  left of the archive; here the same reading takes every piece by its place in the archive and
  looks whether the piece is there. What was read is told by the bytes up to the end of the
  data, so other bytes behind them change nothing and missing ones are noticed.
-/
import Mathlib.Order.Interval.Set.Basic
import TaskKernel.Archive.Reader

namespace TaskKernel.Archive

/-! ## Pieces -/

/-- The bytes `[start, start + len)`, if all of them are there. -/
def slice? (bytes : List Byte) (start len : Nat) : Option (List Byte) :=
  if start + len ≤ bytes.length then some ((bytes.drop start).take len) else none

section

variable {bytes bytes' piece : List Byte} {start len k : Nat}

theorem slice?_of_le (h : start + len ≤ bytes.length) :
    slice? bytes start len = some ((bytes.drop start).take len) :=
  if_pos h

theorem slice?_of_lt (h : bytes.length < start + len) : slice? bytes start len = none :=
  if_neg (Nat.not_le.2 h)

theorem slice?_eq_some_iff :
    slice? bytes start len = some piece ↔
      start + len ≤ bytes.length ∧ (bytes.drop start).take len = piece := by
  by_cases h : start + len ≤ bytes.length
  · rw [slice?_of_le h, Option.some_inj]
    exact (and_iff_right h).symm
  · rw [slice?_of_lt (Nat.lt_of_not_le h)]
    exact iff_of_false (by simp) (fun hpiece => h hpiece.1)

theorem length_of_slice? (h : slice? bytes start len = some piece) : piece.length = len := by
  obtain ⟨hle, rfl⟩ := slice?_eq_some_iff.1 h
  rw [List.length_take, List.length_drop]
  omega

/-- A cut takes away the pieces that reach behind it and no others. -/
theorem slice?_take (bytes : List Byte) (start len k : Nat) :
    slice? (bytes.take k) start len =
      if start + len ≤ k then slice? bytes start len else none := by
  by_cases hcut : start + len ≤ k
  · have hinside : len ≤ k - start := by omega
    rw [if_pos hcut, slice?, slice?, List.length_take, List.drop_take, List.take_take,
      Nat.min_eq_left hinside]
    simp only [Nat.le_min, hcut, true_and]
  · rw [if_neg hcut]
    apply slice?_of_lt
    rw [List.length_take]
    omega

/-- Bytes that agree up to `k` have the same pieces up to there. -/
theorem slice?_congr (hagree : bytes'.take k = bytes.take k) (h : start + len ≤ k) :
    slice? bytes' start len = slice? bytes start len := by
  have hcut := slice?_take bytes' start len k
  rwa [hagree, slice?_take, if_pos h, if_pos h, eq_comm] at hcut

end

/-! ## Headers -/

/-- The text of header field number `i`. -/
def fieldText? (header : List Byte) (i : Nat) : Option (List Byte) :=
  slice? header (magic.length + 8 * i) 8

/-- The number that a field text spells. -/
def fieldValue? (text : List Byte) : Option Nat :=
  hexValue? 0 (text.map fun b => Char.ofNat b.toNat)

section

variable {bytes header : List Byte} {offset i : Nat}

/-- Every field of a whole header is there. -/
theorem fieldText?_of_length (h : header.length = headerLength) (hi : i < 13) :
    fieldText? header i = some ((header.drop (magic.length + 8 * i)).take 8) := by
  apply slice?_of_le
  rw [h]
  simp only [magic, List.length_cons, List.length_nil, headerLength]
  omega

theorem field?_eq (header : List Byte) (i : Nat) :
    field? header i = fieldValue? ((header.drop (magic.length + 8 * i)).take 8) := rfl

/-- The fields are the same in a header and in the bytes that start with it. -/
theorem field?_take (bytes : List Byte) (hi : i < 13) :
    field? (bytes.take headerLength) i = field? bytes i := by
  have hinside : 8 ≤ headerLength - (magic.length + 8 * i) := by
    simp only [magic, List.length_cons, List.length_nil, headerLength]
    omega
  rw [field?_eq, field?_eq, List.drop_take, List.take_take, Nat.min_eq_left hinside]

theorem magic_take (bytes : List Byte) :
    (bytes.take headerLength).take magic.length = bytes.take magic.length := by
  rw [List.take_take, Nat.min_eq_left (by decide)]

end

/-! ## Reading by offsets -/

/-- Reads the name and data behind the header at `offset`. -/
def bodyAt (bytes : List Byte) (offset mode fileSize nameSize : Nat) :
    Except ArchiveError Parsed :=
  match slice? bytes (offset + headerLength) nameSize with
  | none => .error (.truncated offset)
  | some text =>
    match decodeText? (untilNul text) with
    | none => .error (.badName offset)
    | some name =>
      let dataStart := align4 (offset + headerLength + nameSize)
      match slice? bytes dataStart fileSize with
      | none => .error (.truncated offset)
      | some data =>
        .ok ⟨⟨name, BitVec.ofNat 32 mode, data⟩, align4 (dataStart + fileSize) - offset⟩

/-- Reads what the header at `offset` announces. -/
def memberAt (bytes : List Byte) (offset : Nat) (header : List Byte) :
    Except ArchiveError Parsed :=
  if header.take magic.length ≠ magic then .error (.badMagic offset)
  else
    match field? header modeField, field? header fileSizeField, field? header nameSizeField with
    | some mode, some fileSize, some nameSize => bodyAt bytes offset mode fileSize nameSize
    | _, _, _ => .error (.badField offset)

/-- Reads the member at `offset` with a look at every piece. Pieces of the archive that are
    not there make an error; inside a header nothing is prepared for that, and there is no
    result at all if it happens. -/
def readAt? (bytes : List Byte) (offset : Nat) : Option (Except ArchiveError Parsed) :=
  match slice? bytes offset headerLength with
  | none => some (.error (.truncated offset))
  | some header => do
    let start ← slice? header 0 magic.length
    if start ≠ magic then
      return .error (.badMagic offset)
    let mode ← fieldText? header modeField
    let fileSize ← fieldText? header fileSizeField
    let nameSize ← fieldText? header nameSizeField
    match fieldValue? mode, fieldValue? fileSize, fieldValue? nameSize with
    | some mode, some fileSize, some nameSize =>
      return bodyAt bytes offset mode fileSize nameSize
    | _, _, _ => return .error (.badField offset)

section

variable {bytes header : List Byte} {offset : Nat}

theorem parseBody_drop (hoffset : offset ≤ bytes.length) (mode fileSize nameSize : Nat) :
    parseBody offset (bytes.drop offset) mode fileSize nameSize =
      bodyAt bytes offset mode fileSize nameSize := by
  have hname := le_align4 (offset + headerLength + nameSize)
  have hdata : offset + (align4 (offset + headerLength + nameSize) - offset) =
      align4 (offset + headerLength + nameSize) := by omega
  rw [parseBody, bodyAt, List.length_drop, List.drop_drop]
  -- The bounds are those of what is left here and of the whole archive there.
  by_cases hfits : offset + headerLength + nameSize ≤ bytes.length
  · rw [if_neg (by omega), slice?_of_le hfits]
    dsimp only
    cases decodeText? (untilNul ((bytes.drop (offset + headerLength)).take nameSize)) with
    | none => rfl
    | some name =>
      dsimp only
      by_cases hfits' : align4 (offset + headerLength + nameSize) + fileSize ≤ bytes.length
      · rw [if_neg (by omega), slice?_of_le hfits', List.drop_drop, hdata]
      · rw [if_pos (by omega), slice?_of_lt (Nat.lt_of_not_le hfits')]
  · rw [if_pos (by omega), slice?_of_lt (Nat.lt_of_not_le hfits)]

theorem parse_of_no_header (h : slice? bytes offset headerLength = none) :
    parse offset (bytes.drop offset) = .error (.truncated offset) := by
  have hshort : bytes.length < offset + headerLength := by
    by_contra hle
    rw [slice?_of_le (Nat.le_of_not_lt hle)] at h
    cases h
  rw [parse, if_pos]
  rw [List.length_drop]
  simp only [headerLength] at hshort ⊢
  omega

theorem parse_of_header (h : slice? bytes offset headerLength = some header) :
    parse offset (bytes.drop offset) = memberAt bytes offset header := by
  obtain ⟨hfits, rfl⟩ := slice?_eq_some_iff.1 h
  have hlong : ¬ (bytes.drop offset).length < headerLength := by
    rw [List.length_drop]
    omega
  have hbody : parseBody offset (bytes.drop offset) = bodyAt bytes offset := by
    funext mode fileSize nameSize
    exact parseBody_drop (by omega) mode fileSize nameSize
  rw [memberAt, magic_take, field?_take _ (by decide), field?_take _ (by decide),
    field?_take _ (by decide), ← hbody]
  exact if_neg hlong

/-- Reading by offsets in the archive is reading what is left of it, and no piece is ever
    missing where nothing is prepared for it. -/
theorem readAt?_eq (bytes : List Byte) (offset : Nat) :
    readAt? bytes offset = some (parse offset (bytes.drop offset)) := by
  cases hheader : slice? bytes offset headerLength with
  | none => rw [readAt?, hheader, parse_of_no_header hheader]
  | some header =>
    have hlength := length_of_slice? hheader
    have hstart : slice? header 0 magic.length = some (header.take magic.length) := by
      rw [slice?_of_le (by rw [hlength]; decide), List.drop_zero]
    rw [parse_of_header hheader, memberAt, readAt?, hheader]
    simp only [hstart, fieldText?_of_length hlength (show modeField < 13 by decide),
      fieldText?_of_length hlength (show fileSizeField < 13 by decide),
      fieldText?_of_length hlength (show nameSizeField < 13 by decide), field?_eq,
      Option.bind_eq_bind, Option.bind_some]
    split
    · rfl
    · split <;> rfl

end

/-! ## Sites -/

/-- A place in an archive where a member stands, with the lengths that its header gives. -/
structure Site where
  offset : Nat
  nameSize : Nat
  dataSize : Nat
deriving DecidableEq, Repr

namespace Site

def nameStart (s : Site) : Nat := s.offset + headerLength

def nameStop (s : Site) : Nat := s.nameStart + s.nameSize

def dataStart (s : Site) : Nat := align4 s.nameStop

def dataStop (s : Site) : Nat := s.dataStart + s.dataSize

/-- Where the next member starts. -/
def stop (s : Site) : Nat := align4 s.dataStop

/-- The positions of header, name and data. -/
def extent (s : Site) : Set Nat :=
  Set.Ico s.offset s.nameStart ∪ Set.Ico s.nameStart s.nameStop ∪ Set.Ico s.dataStart s.dataStop

theorem header_le_nameStop (s : Site) : s.offset + headerLength ≤ s.nameStop :=
  Nat.le_add_right _ _

theorem nameStop_le_dataStart (s : Site) : s.nameStop ≤ s.dataStart := le_align4 _

theorem dataStart_le_dataStop (s : Site) : s.dataStart ≤ s.dataStop := Nat.le_add_right _ _

theorem nameStop_le_dataStop (s : Site) : s.nameStop ≤ s.dataStop :=
  Nat.le_trans s.nameStop_le_dataStart s.dataStart_le_dataStop

theorem header_le_dataStop (s : Site) : s.offset + headerLength ≤ s.dataStop :=
  Nat.le_trans s.header_le_nameStop s.nameStop_le_dataStop

theorem dataStop_le_stop (s : Site) : s.dataStop ≤ s.stop := le_align4 _

/-- A member takes up at least its header. -/
theorem header_le_stop (s : Site) : s.offset + headerLength ≤ s.stop :=
  Nat.le_trans s.header_le_dataStop s.dataStop_le_stop

theorem extent_subset (s : Site) : s.extent ⊆ Set.Ico s.offset s.dataStop := by
  have hstart : s.nameStart = s.offset + headerLength := rfl
  have hheader := s.header_le_nameStop
  have hname := s.nameStop_le_dataStart
  have hdata := s.dataStart_le_dataStop
  rintro x ((⟨hlow, hhigh⟩ | ⟨hlow, hhigh⟩) | ⟨hlow, hhigh⟩)
  all_goals exact ⟨by omega, by omega⟩

/-- A header with these lengths and this mode. -/
structure Heads (s : Site) (header : List Byte) (mode : BitVec 32) : Prop where
  magic : header.take magic.length = Archive.magic
  mode : (field? header modeField).map (BitVec.ofNat 32) = some mode
  dataSize : field? header fileSizeField = some s.dataSize
  nameSize : field? header nameSizeField = some s.nameSize

/-- The member stands at the site, with all its bytes. -/
structure Holds (s : Site) (bytes : List Byte) (m : Member) : Prop where
  header : ∃ header, slice? bytes s.offset headerLength = some header ∧ s.Heads header m.mode
  name : ∃ text, slice? bytes s.nameStart s.nameSize = some text ∧
    decodeText? (untilNul text) = some m.name
  data : slice? bytes s.dataStart s.dataSize = some m.data

namespace Holds

variable {s : Site} {bytes : List Byte} {m : Member}

theorem dataStop_le (h : s.Holds bytes m) : s.dataStop ≤ bytes.length :=
  (slice?_eq_some_iff.1 h.data).1

/-- Header, name and data lie inside the archive. -/
theorem extent_subset (h : s.Holds bytes m) : s.extent ⊆ Set.Iio bytes.length := by
  intro x hx
  exact Nat.lt_of_lt_of_le (s.extent_subset hx).2 h.dataStop_le

end Holds

theorem Heads.memberAt_eq {s : Site} {header : List Byte} {mode : BitVec 32}
    (h : s.Heads header mode) (bytes : List Byte) :
    ∃ n, BitVec.ofNat 32 n = mode ∧
      memberAt bytes s.offset header = bodyAt bytes s.offset n s.dataSize s.nameSize := by
  obtain ⟨n, hn, hmode⟩ := Option.map_eq_some_iff.1 h.mode
  refine ⟨n, hmode, ?_⟩
  rw [memberAt, if_neg (not_not.2 h.magic), hn, h.dataSize, h.nameSize]

/-- What stands at a site is read there. -/
theorem Holds.parse_eq {s : Site} {bytes : List Byte} {m : Member} (h : s.Holds bytes m) :
    parse s.offset (bytes.drop s.offset) = .ok ⟨m, s.stop - s.offset⟩ := by
  obtain ⟨header, hheader, heads⟩ := h.header
  obtain ⟨text, htext, hname⟩ := h.name
  obtain ⟨n, hmode, hmember⟩ := heads.memberAt_eq bytes
  have hdata := h.data
  simp only [nameStart, dataStart, nameStop] at htext hdata
  rw [parse_of_header hheader, hmember, bodyAt, htext]
  simp only [hname, hdata, hmode]
  rfl

/-- What is read stands at a site. -/
theorem exists_holds_of_parse {bytes : List Byte} {offset : Nat} {p : Parsed}
    (h : parse offset (bytes.drop offset) = .ok p) :
    ∃ s : Site, s.offset = offset ∧ s.Holds bytes p.member ∧ p.length = s.stop - offset := by
  cases hheader : slice? bytes offset headerLength with
  | none =>
    rw [parse_of_no_header hheader] at h
    cases h
  | some header =>
    rw [parse_of_header hheader, memberAt] at h
    split at h
    · cases h
    · next hmagic =>
      split at h
      · next mode fileSize nameSize hmode hfileSize hnameSize =>
        rw [bodyAt] at h
        split at h
        · cases h
        · next text htext =>
          split at h
          · cases h
          · next name hname =>
            dsimp only at h
            split at h
            · cases h
            · next data hdata =>
              cases h
              have hmode' : (field? header modeField).map (BitVec.ofNat 32) =
                  some (BitVec.ofNat 32 mode) := by
                rw [hmode]
                rfl
              have heads : (⟨offset, nameSize, fileSize⟩ : Site).Heads header
                  (BitVec.ofNat 32 mode) := ⟨not_not.1 hmagic, hmode', hfileSize, hnameSize⟩
              exact ⟨⟨offset, nameSize, fileSize⟩, rfl,
                ⟨⟨header, hheader, heads⟩, ⟨text, htext, hname⟩, hdata⟩, rfl⟩
      · cases h

/-- The bytes up to the end of the data tell the member. -/
theorem Holds.congr {s : Site} {bytes bytes' : List Byte} {m : Member} {k : Nat}
    (h : s.Holds bytes m) (hagree : bytes'.take k = bytes.take k) (hk : s.dataStop ≤ k) :
    s.Holds bytes' m := by
  have hheader := s.header_le_dataStop
  have hname := s.nameStop_le_dataStop
  refine ⟨?_, ?_, ?_⟩
  · rw [slice?_congr hagree (by omega)]
    exact h.header
  · rw [slice?_congr hagree (Nat.le_trans hname hk)]
    exact h.name
  · rw [slice?_congr hagree hk]
    exact h.data

/-- A member that loses a byte of its data, or something before it, is missed as a whole. -/
theorem Holds.parse_take {s : Site} {bytes : List Byte} {m : Member} {k : Nat}
    (h : s.Holds bytes m) (hk : k < s.dataStop) :
    parse s.offset ((bytes.take k).drop s.offset) = .error (.truncated s.offset) := by
  obtain ⟨header, hheader, heads⟩ := h.header
  obtain ⟨text, htext, hname⟩ := h.name
  obtain ⟨n, -, hmember⟩ := heads.memberAt_eq (bytes.take k)
  have hcut := slice?_take bytes s.offset headerLength k
  -- The first piece that the cut reaches is missed: the header, the name or the data.
  by_cases hinHeader : s.offset + headerLength ≤ k
  · rw [if_pos hinHeader, hheader] at hcut
    rw [parse_of_header hcut, hmember, bodyAt, slice?_take]
    by_cases hinName : s.offset + headerLength + s.nameSize ≤ k
    · have hpiece : slice? bytes (s.offset + headerLength) s.nameSize = some text := htext
      have hmissing : ¬ align4 (s.offset + headerLength + s.nameSize) + s.dataSize ≤ k :=
        Nat.not_le.2 hk
      simp only [if_pos hinName, hpiece, hname, slice?_take, if_neg hmissing]
    · rw [if_neg hinName]
  · rw [if_neg hinHeader] at hcut
    exact parse_of_no_header hcut

end Site

end TaskKernel.Archive
