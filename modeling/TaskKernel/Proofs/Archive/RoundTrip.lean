/-
  TaskKernel.Proofs.Archive.RoundTrip

  An archive that was written reads back as the members it was written from. Writer and
  reader both pad to offsets counted from the start of the archive, so one member is read
  back at any offset and whatever follows it; the members of an archive then follow by
  induction, up to the trailer.
-/
import Mathlib.Algebra.Ring.Nat
import TaskKernel.Archive.Writer

namespace TaskKernel.Archive

/-! ## Header fields -/

@[simp] theorem length_fieldBytes (n : Nat) : (fieldBytes n).length = 8 := by
  simp [fieldBytes]

theorem hexDigit?_hexDigitByte {d : Nat} (h : d < 16) :
    hexDigit? (Char.ofNat (hexDigitByte d).toNat) = some d := by
  have hall : ∀ d : Fin 16, hexDigit? (Char.ofNat (hexDigitByte d).toNat) = some d.val := by
    decide
  exact hall ⟨d, h⟩

theorem hexValue?_hexDigitBytes (digits : List Nat) (h : ∀ d ∈ digits, d < 16) (acc : Nat) :
    hexValue? acc ((digits.map hexDigitByte).map fun b => Char.ofNat b.toNat) =
      some (digits.foldl (fun acc d => 16 * acc + d) acc) := by
  induction digits generalizing acc with
  | nil => rfl
  | cons d digits ih =>
      rw [List.forall_mem_cons] at h
      simp only [List.map_cons, hexValue?, hexDigit?_hexDigitByte h.1, List.foldl_cons]
      exact ih h.2 (16 * acc + d)

/-- The last `k` digits of a number, most significant first, make up what it leaves over
    when divided by `16 ^ k`. -/
theorem foldl_hexDigits (n k acc : Nat) :
    ((List.range k).map fun i => n >>> (4 * (k - 1 - i)) % 16).foldl
      (fun acc d => 16 * acc + d) acc = 16 ^ k * acc + n % 16 ^ k := by
  induction k generalizing acc with
  | zero => simp [Nat.mod_one]
  | succ k ih =>
      have hrest : (fun i => n >>> (4 * (k + 1 - 1 - i)) % 16) ∘ Nat.succ =
          fun i => n >>> (4 * (k - 1 - i)) % 16 := by
        funext i
        have hshift : k + 1 - 1 - Nat.succ i = k - 1 - i := by omega
        rw [Function.comp_apply, hshift]
      have hfirst : n >>> (4 * (k + 1 - 1 - 0)) = n / 16 ^ k := by
        rw [Nat.shiftRight_eq_div_pow, Nat.pow_mul]
        rfl
      rw [List.range_succ_eq_map, List.map_cons, List.map_map, hrest, List.foldl_cons, ih, hfirst,
        Nat.mod_pow_succ, Nat.mul_add, ← Nat.mul_assoc, ← Nat.pow_succ, Nat.add_assoc,
        Nat.add_comm (n % 16 ^ k)]

/-- A number of 32 bits written as a field reads back. -/
theorem hexValue?_fieldBytes {n : Nat} (h : n < 2 ^ 32) :
    hexValue? 0 ((fieldBytes n).map fun b => Char.ofNat b.toNat) = some n := by
  have hdigits : fieldBytes n =
      ((List.range 8).map fun i => n >>> (4 * (8 - 1 - i)) % 16).map hexDigitByte := by
    rw [List.map_map]
    rfl
  have hsmall : ∀ d ∈ (List.range 8).map (fun i => n >>> (4 * (8 - 1 - i)) % 16), d < 16 := by
    intro d hd
    obtain ⟨i, -, rfl⟩ := List.mem_map.1 hd
    omega
  have hfits : n % 16 ^ 8 = n := Nat.mod_eq_of_lt h
  rw [hdigits, hexValue?_hexDigitBytes _ hsmall, foldl_hexDigits, hfits, Nat.mul_zero, Nat.zero_add]

theorem take_drop_fields (values : List Nat) (rest : List Byte) {i : Nat} (h : i < values.length) :
    ((values.flatMap fieldBytes ++ rest).drop (8 * i)).take 8 = fieldBytes values[i] := by
  induction values generalizing i with
  | nil => simp at h
  | cons v values ih =>
      rw [List.flatMap_cons, List.append_assoc]
      cases i with
      | zero => exact List.take_left' (length_fieldBytes v)
      | succ i =>
          have hskip : 8 * (i + 1) = (fieldBytes v).length + 8 * i := by
            rw [length_fieldBytes]
            omega
          rw [hskip, List.drop_length_add_append, List.getElem_cons_succ]
          exact ih (Nat.lt_of_succ_lt_succ h)

/-- The fields behind the magic read back by their number. -/
theorem field?_append (values : List Nat) (rest : List Byte) {i : Nat} (h : i < values.length)
    (hsmall : values[i] < 2 ^ 32) :
    field? (magic ++ (values.flatMap fieldBytes ++ rest)) i = some values[i] := by
  rw [field?, List.drop_length_add_append, take_drop_fields values rest h, hexValue?_fieldBytes hsmall]

/-! ## One member -/

@[simp] theorem length_padding (offset : Nat) :
    (padding offset).length = align4 offset - offset := by
  simp [padding]

namespace Member

/-- The values in the fields of the header. -/
def fields (m : Member) : List Nat :=
  [1, m.mode.toNat, 0, 0, 1, 0, m.data.length, 0, 0, 0, 0, m.nameSize, 0]

theorem header_eq (m : Member) : m.header = magic ++ m.fields.flatMap fieldBytes := rfl

@[simp] theorem length_header (m : Member) : m.header.length = headerLength := by
  simp [header_eq, fields, magic, headerLength]

/-- A member that the format can hold. -/
structure Writable (m : Member) : Prop where
  name_noNul : '\x00' ∉ m.name.toList
  nameSize_lt : m.nameSize < 2 ^ 32
  data_lt : m.data.length < 2 ^ 32

theorem writable_trailer : trailer.Writable where
  name_noNul := by decide
  nameSize_lt := by decide +kernel
  data_lt := by decide

/-- Where the data of the member at `offset` starts. -/
def dataStart (m : Member) (offset : Nat) : Nat := align4 (offset + headerLength + m.nameSize)

/-- Where the member behind the one at `offset` starts. -/
def stop (m : Member) (offset : Nat) : Nat := align4 (m.dataStart offset + m.data.length)

theorem align4_nameEnd (m : Member) (offset : Nat) :
    align4 (offset + headerLength + m.nameSize) = m.dataStart offset := rfl

theorem align4_dataEnd (m : Member) (offset : Nat) :
    align4 (m.dataStart offset + m.data.length) = m.stop offset := rfl

theorem le_dataStart (m : Member) (offset : Nat) :
    offset + headerLength + m.nameSize ≤ m.dataStart offset :=
  le_align4 _

theorem le_stop (m : Member) (offset : Nat) :
    m.dataStart offset + m.data.length ≤ m.stop offset :=
  le_align4 _

/-- Header and terminated name. -/
def head (m : Member) : List Byte := m.header ++ encodeText m.name ++ [0]

@[simp] theorem length_head (m : Member) : m.head.length = headerLength + m.nameSize := by
  simp only [head, List.length_append, length_header, nameSize, List.length_singleton]
  omega

/-- Head and data, each padded from where it ends in the archive. -/
theorem toBytes_eq (m : Member) (offset : Nat) :
    m.toBytes offset = m.head ++ padding (offset + headerLength + m.nameSize) ++ m.data ++
      padding (m.dataStart offset + m.data.length) := by
  have hstart := m.le_dataStart offset
  have hbody : offset + (m.head ++ padding (offset + m.head.length) ++ m.data).length =
      m.dataStart offset + m.data.length := by
    simp only [List.length_append, length_padding, length_head, ← Nat.add_assoc, align4_nameEnd]
    omega
  rw [toBytes, ← head]
  simp only [hbody]
  rw [length_head, ← Nat.add_assoc]

/-- Whatever is asked of the header can be asked of the bytes that start with it. -/
theorem exists_toBytes_eq (m : Member) (offset : Nat) (rest : List Byte) :
    ∃ tail, m.toBytes offset ++ rest = m.header ++ tail := by
  rw [toBytes_eq, head]
  simp only [List.append_assoc]
  exact ⟨_, rfl⟩

theorem length_toBytes (m : Member) (offset : Nat) :
    (m.toBytes offset).length = m.stop offset - offset := by
  have hstart := m.le_dataStart offset
  have hstop := m.le_stop offset
  rw [toBytes_eq]
  simp only [List.length_append, length_padding, length_head, align4_nameEnd, align4_dataEnd]
  omega

end Member

theorem field?_header {m : Member} (h : m.Writable) (rest : List Byte) :
    field? (m.header ++ rest) modeField = some m.mode.toNat ∧
    field? (m.header ++ rest) fileSizeField = some m.data.length ∧
    field? (m.header ++ rest) nameSizeField = some m.nameSize := by
  rw [m.header_eq, List.append_assoc]
  refine ⟨?_, ?_, ?_⟩
  · exact field?_append m.fields rest (i := 1) (by simp [Member.fields]) m.mode.isLt
  · exact field?_append m.fields rest (i := 6) (by simp [Member.fields]) h.data_lt
  · exact field?_append m.fields rest (i := 11) (by simp [Member.fields]) h.nameSize_lt

theorem parseBody_toBytes (offset : Nat) {m : Member} (h : m.Writable) (rest : List Byte) :
    parseBody offset (m.toBytes offset ++ rest) m.mode.toNat m.data.length m.nameSize =
      .ok ⟨m, (m.toBytes offset).length⟩ := by
  have hstart := m.le_dataStart offset
  have hstop := m.le_stop offset
  have hlength := m.length_toBytes offset
  have hname : untilNul (((m.toBytes offset ++ rest).drop headerLength).take m.nameSize) =
      encodeText m.name := by
    have hsplit : m.toBytes offset ++ rest = m.header ++ ((encodeText m.name ++ [0]) ++
        (padding (offset + headerLength + m.nameSize) ++ m.data ++
          padding (m.dataStart offset + m.data.length) ++ rest)) := by
      simp only [m.toBytes_eq, Member.head, List.append_assoc]
    rw [hsplit, List.drop_left' m.length_header, List.take_left' (by simp [Member.nameSize])]
    exact untilNul_append_zero (zero_notMem_encodeText h.name_noNul) []
  have hdata : ((m.toBytes offset ++ rest).drop (m.dataStart offset - offset)).take
      m.data.length = m.data := by
    have hsplit : m.toBytes offset ++ rest =
        (m.head ++ padding (offset + headerLength + m.nameSize)) ++
          (m.data ++ (padding (m.dataStart offset + m.data.length) ++ rest)) := by
      simp only [m.toBytes_eq, List.append_assoc]
    have hskip : (m.head ++ padding (offset + headerLength + m.nameSize)).length =
        m.dataStart offset - offset := by
      simp only [List.length_append, Member.length_head, length_padding, m.align4_nameEnd]
      omega
    rw [hsplit, List.drop_left' hskip, List.take_left' rfl]
  have hresume : offset + (m.dataStart offset - offset) = m.dataStart offset := by omega
  rw [parseBody, if_neg, hname, decodeText?_encodeText]
  · dsimp only
    rw [m.align4_nameEnd, if_neg, hdata, hresume, m.align4_dataEnd, BitVec.ofNat_toNat,
      BitVec.setWidth_eq, hlength]
    rw [List.length_append, hlength]
    omega
  · rw [List.length_append, hlength]
    omega

/-- A written member reads back, wherever it stands and whatever follows. -/
theorem parse_toBytes (offset : Nat) {m : Member} (h : m.Writable) (rest : List Byte) :
    parse offset (m.toBytes offset ++ rest) = .ok ⟨m, (m.toBytes offset).length⟩ := by
  have hbody := parseBody_toBytes offset h rest
  obtain ⟨tail, htail⟩ := m.exists_toBytes_eq offset rest
  obtain ⟨hmode, hfile, hname⟩ := field?_header h tail
  rw [htail] at hbody ⊢
  rw [parse, if_neg, if_neg, hmode, hfile, hname]
  · exact hbody
  · rw [m.header_eq, List.append_assoc, List.take_left]
    simp
  · rw [List.length_append, m.length_header]
    omega

/-! ## Members in a row -/

namespace Cursor

theorem next_member (offset : Nat) {m : Member} (h : m.Writable) (hname : m.name ≠ trailerName)
    (rest : List Byte) :
    next ⟨offset, m.toBytes offset ++ rest, false⟩ =
      (some (.ok m), ⟨offset + (m.toBytes offset).length, rest, false⟩) := by
  have hparse := parse_toBytes offset h rest
  simp only [next, hparse, Bool.false_eq_true, if_false, if_neg hname, List.drop_left]

theorem next_trailer (offset : Nat) (rest : List Byte) :
    next ⟨offset, Member.trailer.toBytes offset ++ rest, false⟩ =
      (none, ⟨offset, Member.trailer.toBytes offset ++ rest, true⟩) := by
  have hparse := parse_toBytes offset Member.writable_trailer rest
  have hname : Member.trailer.name = trailerName := rfl
  simp only [next, hparse, Bool.false_eq_true, if_false, if_pos hname]

theorem next_of_done {c : Cursor} (h : c.done = true) : c.next = (none, c) := by
  rw [next, if_pos h]

/-- The cursor after `n` steps. -/
def after (c : Cursor) : Nat → Cursor
  | 0 => c
  | n + 1 => c.next.2.after n

theorem after_of_done {c : Cursor} (h : c.done = true) (n : Nat) : c.after n = c := by
  induction n with
  | zero => rfl
  | succ n ih => rw [after, next_of_done h, ih]

theorem toList_of_none {c c' : Cursor} (h : c.next = (none, c')) : c.toList = [] := by
  rw [toList]
  split
  · rfl
  · next heq =>
      rw [h] at heq
      cases heq

theorem toList_of_some {c c' : Cursor} {item : Except ArchiveError Member}
    (h : c.next = (some item, c')) : c.toList = item :: c'.toList := by
  rw [toList]
  split
  · next heq =>
      rw [h] at heq
      cases heq
  · next heq =>
      rw [h] at heq
      cases heq
      rfl

end Cursor

/-- A cursor before the given members and the trailer. -/
def cursorBefore (members : List Member) (offset : Nat) (rest : List Byte) : Cursor :=
  ⟨offset, membersToBytes offset (members ++ [.trailer]) ++ rest, false⟩

section

variable {members : List Member} {m : Member}

theorem next_cursorBefore_nil (offset : Nat) (rest : List Byte) :
    (cursorBefore [] offset rest).next =
      (none, { cursorBefore [] offset rest with done := true }) := by
  simp only [cursorBefore, List.nil_append, membersToBytes, List.append_assoc]
  exact Cursor.next_trailer offset rest

theorem next_cursorBefore_cons (h : m.Writable) (hname : m.name ≠ trailerName) (offset : Nat)
    (rest : List Byte) :
    (cursorBefore (m :: members) offset rest).next =
      (some (.ok m), cursorBefore members (offset + (m.toBytes offset).length) rest) := by
  rw [cursorBefore, List.cons_append, membersToBytes, List.append_assoc]
  exact Cursor.next_member offset h hname _

/-- Step by step the members come in order, then nothing for ever. -/
theorem next_after_cursorBefore (h : ∀ m ∈ members, m.Writable ∧ m.name ≠ trailerName)
    (offset : Nat) (rest : List Byte) (n : Nat) :
    ((cursorBefore members offset rest).after n).next.1 = members[n]?.map .ok := by
  induction members generalizing offset n with
  | nil =>
      have htrailer := next_cursorBefore_nil offset rest
      cases n with
      | zero => rw [Cursor.after, htrailer]; rfl
      | succ n =>
          rw [Cursor.after, htrailer, Cursor.after_of_done rfl, Cursor.next_of_done rfl]
          rfl
  | cons m members ih =>
      rw [List.forall_mem_cons] at h
      obtain ⟨⟨hwritable, hname⟩, hrest⟩ := h
      have hnext := @next_cursorBefore_cons members m hwritable hname offset rest
      cases n with
      | zero => rw [Cursor.after, hnext]; rfl
      | succ n =>
          rw [Cursor.after, hnext]
          exact ih hrest _ n

theorem toList_cursorBefore (h : ∀ m ∈ members, m.Writable ∧ m.name ≠ trailerName)
    (offset : Nat) (rest : List Byte) :
    (cursorBefore members offset rest).toList = members.map .ok := by
  induction members generalizing offset with
  | nil => exact Cursor.toList_of_none (next_cursorBefore_nil offset rest)
  | cons m members ih =>
      rw [List.forall_mem_cons] at h
      obtain ⟨⟨hwritable, hname⟩, hrest⟩ := h
      rw [Cursor.toList_of_some (next_cursorBefore_cons hwritable hname offset rest), ih hrest]
      rfl

/-- An archive starts with a header, be it the one of the trailer. -/
theorem ofBytes_write (members : List Member) (rest : List Byte) :
    ofBytes (write members ++ rest) = .ok ⟨write members ++ rest⟩ := by
  obtain ⟨m, ms, hmembers⟩ : ∃ m ms, members ++ [.trailer] = m :: ms := by
    cases members with
    | nil => exact ⟨_, _, rfl⟩
    | cons m members => exact ⟨_, _, rfl⟩
  obtain ⟨tail, htail⟩ : ∃ tail, write members ++ rest = m.header ++ tail := by
    rw [write, hmembers, membersToBytes, List.append_assoc]
    exact m.exists_toBytes_eq 0 _
  rw [htail, ofBytes, if_neg, if_neg]
  · rw [m.header_eq, List.append_assoc, List.take_left]
    simp
  · rw [List.length_append, m.length_header]
    omega

/-- Members written to an archive, whatever bytes follow it, are read back in order with
    their names, modes and data, without an error, and after them there is nothing more. -/
theorem entries_write (h : ∀ m ∈ members, m.Writable ∧ m.name ≠ trailerName)
    (rest : List Byte) :
    ∃ a, ofBytes (write members ++ rest) = .ok a ∧ a.entries = members.map .ok ∧
      ∀ n, (a.start.after n).next.1 = members[n]?.map .ok := by
  refine ⟨_, ofBytes_write members rest, ?_, ?_⟩
  · exact toList_cursorBefore h 0 rest
  · exact next_after_cursorBefore h 0 rest

end

/-- A member without a name and one without data, followed by what could be a header. -/
theorem entries_write_empty_parts :
    ∃ a, ofBytes (write [⟨"", 0xffffffff, [1, 2, 3, 4, 5]⟩, ⟨"bin/é", 0o040755, []⟩] ++ magic) =
        .ok a ∧
      a.entries = [.ok ⟨"", 0xffffffff, [1, 2, 3, 4, 5]⟩, .ok ⟨"bin/é", 0o040755, []⟩] ∧
      (a.start.after 2).next.1 = none ∧ (a.start.after 3).next.1 = none := by
  have h : ∀ m ∈ [(⟨"", 0xffffffff, [1, 2, 3, 4, 5]⟩ : Member), ⟨"bin/é", 0o040755, []⟩],
      m.Writable ∧ m.name ≠ trailerName := by
    rw [List.forall_mem_cons, List.forall_mem_singleton]
    refine ⟨⟨⟨by decide, by decide +kernel, by decide⟩, by decide⟩, ?_⟩
    exact ⟨⟨by decide, by decide +kernel, by decide⟩, by decide⟩
  obtain ⟨a, haccepted, hentries, hsteps⟩ := entries_write h magic
  exact ⟨a, haccepted, hentries, hsteps 2, hsteps 3⟩

end TaskKernel.Archive
