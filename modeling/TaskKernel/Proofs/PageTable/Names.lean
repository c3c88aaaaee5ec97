/-
  TaskKernel.Proofs.PageTable.Names

  Reading a terminated name out of user memory, one byte at a time. The memory shows a byte at
  an address, or none; the scan stops at the first address that shows no byte or one that is
  not part of a name. What reading returns is told by what it stops at, and a name is accepted
  exactly when its bytes and a terminator stand there, whatever lies behind them.
-/
import TaskKernel.Text
import TaskKernel.Proofs.PageTable.ByteAccess

namespace TaskKernel

namespace AddressSpace

variable {space : AddressSpace} {ram : Ram} {va : VirtAddr}

/-! ## Bytes of user memory -/

/-- The byte at an address of the user half that is mapped. -/
def byteAt? (space : AddressSpace) (ram : Ram) (va : VirtAddr) : Option Byte :=
  if va.toNat < 2 ^ 48 then (space.translate ram va).map ram.byte else none

theorem copyFrom_byte (space : AddressSpace) (ram : Ram) (va : VirtAddr) :
    space.copyFrom ram va [0] =
      match space.byteAt? ram va with
      | none => (.error (.badAddress va), [0])
      | some b => (.ok (), [b]) := by
  rw [copyFrom, byteAt?, readPieces_eq_readEach]
  by_cases hin : va.toNat < 2 ^ 48
  · rw [if_pos (inUserSpace_iff.2 hin), if_pos hin, List.length_singleton, readEach]
    cases space.translate ram va with
    | none => rfl
    | some pa => rfl
  · rw [if_neg (inUserSpace_iff.not.2 hin), if_neg hin]

/-! ## What a name is and where it stops -/

/-- A byte that a name can hold: ASCII, and not the terminator. -/
def Plain (b : Byte) : Prop := b ≠ 0 ∧ b < 128

instance : DecidablePred Plain := fun b => inferInstanceAs (Decidable (b ≠ 0 ∧ b < 128))

theorem not_plain_zero : ¬Plain 0 := fun h => h.1 rfl

theorem not_plain_of_le {b : Byte} (h : 128 ≤ b) : ¬Plain b := fun plain => UInt8.not_le.2 plain.2 h

/-- The memory shows these bytes from `va` on, and a name can hold them all. -/
def Spells (space : AddressSpace) (ram : Ram) (va : VirtAddr) (bytes : List Byte) : Prop :=
  ∀ i (_ : i < bytes.length), space.byteAt? ram (va.plus i) = some bytes[i] ∧ Plain bytes[i]

theorem Spells.nil (space : AddressSpace) (ram : Ram) (va : VirtAddr) : space.Spells ram va [] :=
  fun i hi => absurd hi (Nat.not_lt_zero i)

theorem Spells.cons {b : Byte} {bytes : List Byte} (here : space.byteAt? ram va = some b)
    (plain : Plain b) (h : space.Spells ram (va.plus 1) bytes) :
    space.Spells ram va (b :: bytes) := by
  intro i hi
  cases i with
  | zero =>
      rw [Address.plus_zero]
      exact ⟨here, plain⟩
  | succ i =>
      rw [← Address.plus_one_plus]
      exact h i (Nat.lt_of_succ_lt_succ hi)

theorem Spells.plain_before {bytes : List Byte} (h : space.Spells ram va bytes) :
    ∀ i < bytes.length, ∃ b, space.byteAt? ram (va.plus i) = some b ∧ Plain b :=
  fun i hi => ⟨bytes[i], h i hi⟩

/-- Equally many bytes that are spelled at one place are the same. -/
theorem Spells.unique {bytes bytes' : List Byte} (h : space.Spells ram va bytes)
    (h' : space.Spells ram va bytes') (hlength : bytes.length = bytes'.length) :
    bytes = bytes' := by
  refine List.ext_getElem hlength fun i hi hi' => ?_
  exact Option.some.inj ((h i hi).1.symm.trans (h' i hi').1)

/-- The text that spelled bytes are read as has these bytes. -/
theorem Spells.encodeText_eq {bytes : List Byte} (h : space.Spells ram va bytes) :
    encodeText (String.ofList (asciiChars bytes)) = bytes := by
  refine encodeText_asciiChars fun b hmem => ?_
  obtain ⟨i, hi, rfl⟩ := List.getElem_of_mem hmem
  exact (h i hi).2.2

/-- `j` is the first index whose byte cannot be read or is none that a name can hold. -/
structure StopsAt (space : AddressSpace) (ram : Ram) (va : VirtAddr) (j : Nat) : Prop where
  before : ∀ i < j, ∃ b, space.byteAt? ram (va.plus i) = some b ∧ Plain b
  here : ∀ b, space.byteAt? ram (va.plus j) = some b → ¬Plain b

theorem StopsAt.unique {j k : Nat} (hj : space.StopsAt ram va j) (hk : space.StopsAt ram va k) :
    j = k := by
  rcases Nat.lt_trichotomy j k with hlt | heq | hgt
  · obtain ⟨b, hb, plain⟩ := hk.before j hlt
    exact absurd plain (hj.here b hb)
  · exact heq
  · obtain ⟨b, hb, plain⟩ := hj.before k hgt
    exact absurd plain (hk.here b hb)

theorem Spells.stopsAt_of_none {bytes : List Byte} (h : space.Spells ram va bytes)
    (absent : space.byteAt? ram (va.plus bytes.length) = none) :
    space.StopsAt ram va bytes.length where
  before := h.plain_before
  here b hb := by
    rw [absent] at hb
    cases hb

theorem Spells.stopsAt_of_some {bytes : List Byte} {b : Byte} (h : space.Spells ram va bytes)
    (here : space.byteAt? ram (va.plus bytes.length) = some b) (foreign : ¬Plain b) :
    space.StopsAt ram va bytes.length where
  before := h.plain_before
  here b' hb' := by
    rw [here] at hb'
    cases hb'
    exact foreign

/-! ## The scan -/

/-- One byte is read and settles whether the name goes on. -/
theorem readChars_succ (space : AddressSpace) (ram : Ram) (va : VirtAddr) (room : Nat) :
    space.readChars ram va (room + 1) =
      match space.byteAt? ram va with
      | none => .error (.badAddress va)
      | some b =>
        if b = 0 then .ok []
        else if 128 ≤ b then .error .badName
        else (space.readChars ram (va.plus 1) room).map (Char.ofNat b.toNat :: ·) := by
  rw [readChars, copyFrom_byte]
  cases space.byteAt? ram va with
  | none => rfl
  | some b => rfl

/-- Reading the characters of a name ends this way when `room` bytes may be looked at. -/
inductive Scanned (space : AddressSpace) (ram : Ram) (va : VirtAddr) (room : Nat) :
    Except AccessError (List Char) → Prop
  | named {bytes : List Byte} (spelled : space.Spells ram va bytes) (fits : bytes.length < room)
      (terminated : space.byteAt? ram (va.plus bytes.length) = some 0) :
      Scanned space ram va room (.ok (asciiChars bytes))
  | unreadable {bytes : List Byte} (spelled : space.Spells ram va bytes)
      (fits : bytes.length < room) (absent : space.byteAt? ram (va.plus bytes.length) = none) :
      Scanned space ram va room (.error (.badAddress (va.plus bytes.length)))
  | foreign {bytes : List Byte} {b : Byte} (spelled : space.Spells ram va bytes)
      (fits : bytes.length < room) (here : space.byteAt? ram (va.plus bytes.length) = some b)
      (high : 128 ≤ b) : Scanned space ram va room (.error .badName)
  | endless {bytes : List Byte} (spelled : space.Spells ram va bytes)
      (full : bytes.length = room) : Scanned space ram va room (.error .badName)

theorem Scanned.cons {b : Byte} {room : Nat} {result : Except AccessError (List Char)}
    (here : space.byteAt? ram va = some b) (plain : Plain b)
    (h : Scanned space ram (va.plus 1) room result) :
    Scanned space ram va (room + 1) (result.map (Char.ofNat b.toNat :: ·)) := by
  cases h with
  | named spelled fits terminated =>
      rw [Address.plus_one_plus] at terminated
      exact .named (spelled.cons here plain) (Nat.succ_lt_succ fits) terminated
  | unreadable spelled fits absent =>
      rw [Address.plus_one_plus] at absent ⊢
      exact .unreadable (spelled.cons here plain) (Nat.succ_lt_succ fits) absent
  | foreign spelled fits byte high =>
      rw [Address.plus_one_plus] at byte
      exact .foreign (spelled.cons here plain) (Nat.succ_lt_succ fits) byte high
  | endless spelled full => exact .endless (spelled.cons here plain) (congrArg Nat.succ full)

theorem readChars_scanned (space : AddressSpace) (ram : Ram) (va : VirtAddr) (room : Nat) :
    Scanned space ram va room (space.readChars ram va room) := by
  -- On the room; the first byte ends the name or a name of one byte less follows it.
  induction room generalizing va with
  | zero => exact .endless (.nil space ram va) rfl
  | succ room ih =>
      have hstart : va.plus ([] : List Byte).length = va := Address.plus_zero va
      have hnone := Spells.nil space ram va
      rw [readChars_succ]
      cases hbyte : space.byteAt? ram va with
      | none =>
          have hstop := Scanned.unreadable hnone (Nat.succ_pos room) (by rwa [hstart])
          rwa [hstart] at hstop
      | some b =>
          dsimp only
          split_ifs with hzero hhigh
          · exact .named hnone (Nat.succ_pos room) (by rw [hstart, hbyte, hzero])
          · exact .foreign hnone (Nat.succ_pos room) (by rwa [hstart]) hhigh
          · exact (ih (va.plus 1)).cons hbyte ⟨hzero, UInt8.not_le.1 hhigh⟩

/-- Where the first byte is that is none of a name, reading stops for what it finds there. -/
theorem Scanned.of_stopsAt {room j : Nat} {result : Except AccessError (List Char)}
    (h : Scanned space ram va room result) (stop : space.StopsAt ram va j) (hj : j < room) :
    ∃ bytes, space.Spells ram va bytes ∧ bytes.length = j ∧
      ((space.byteAt? ram (va.plus j) = some 0 ∧ result = .ok (asciiChars bytes)) ∨
        (space.byteAt? ram (va.plus j) = none ∧ result = .error (.badAddress (va.plus j))) ∨
        ∃ b, space.byteAt? ram (va.plus j) = some b ∧ 128 ≤ b ∧ result = .error .badName) := by
  cases h with
  | @named bytes spelled fits terminated =>
      obtain rfl := stop.unique (spelled.stopsAt_of_some terminated not_plain_zero)
      exact ⟨bytes, spelled, rfl, .inl ⟨terminated, rfl⟩⟩
  | @unreadable bytes spelled fits absent =>
      obtain rfl := stop.unique (spelled.stopsAt_of_none absent)
      exact ⟨bytes, spelled, rfl, .inr (.inl ⟨absent, rfl⟩)⟩
  | @foreign bytes b spelled fits here high =>
      obtain rfl := stop.unique (spelled.stopsAt_of_some here (not_plain_of_le high))
      exact ⟨bytes, spelled, rfl, .inr (.inr ⟨b, here, high, rfl⟩)⟩
  | endless spelled full =>
      obtain ⟨b, hb, plain⟩ := spelled.plain_before j (full ▸ hj)
      exact absurd plain (stop.here b hb)

/-- Names are what stands before the terminator, byte for byte. -/
theorem readName_ok_iff (space : AddressSpace) (ram : Ram) (va : VirtAddr) (name : String) :
    space.readName ram va = .ok name ↔
      (encodeText name).length ≤ maxNameLength ∧ space.Spells ram va (encodeText name) ∧
        space.byteAt? ram (va.plus (encodeText name).length) = some 0 := by
  have hscan := space.readChars_scanned ram va (maxNameLength + 1)
  rw [readName]
  generalize space.readChars ram va (maxNameLength + 1) = result at hscan
  constructor
  · intro hok
    cases hscan with
    | @named bytes spelled fits terminated =>
        obtain rfl : String.ofList (asciiChars bytes) = name := Except.ok.inj hok
        rw [spelled.encodeText_eq]
        exact ⟨Nat.le_of_lt_succ fits, spelled, terminated⟩
    | unreadable => cases hok
    | foreign => cases hok
    | endless => cases hok
  · rintro ⟨hfits, hspelled, hterminated⟩
    have stop := hspelled.stopsAt_of_some hterminated not_plain_zero
    obtain ⟨bytes, spelled, hlength, ⟨-, rfl⟩ | ⟨hnone, -⟩ | ⟨b, hb, high, -⟩⟩ :=
      hscan.of_stopsAt stop (Nat.lt_succ_of_le hfits)
    · obtain rfl := spelled.unique hspelled hlength
      exact congrArg Except.ok (encodeText_injective spelled.encodeText_eq)
    · rw [hterminated] at hnone
      cases hnone
    · rw [hterminated] at hb
      cases hb
      exact absurd high (by decide)

theorem readName_badAddress_iff (space : AddressSpace) (ram : Ram) (va a : VirtAddr) :
    space.readName ram va = .error (.badAddress a) ↔
      ∃ j ≤ maxNameLength, space.StopsAt ram va j ∧
        space.byteAt? ram (va.plus j) = none ∧ a = va.plus j := by
  have hscan := space.readChars_scanned ram va (maxNameLength + 1)
  rw [readName]
  generalize space.readChars ram va (maxNameLength + 1) = result at hscan
  constructor
  · intro herror
    cases hscan with
    | named => cases herror
    | unreadable spelled fits absent =>
        cases herror
        exact ⟨_, Nat.le_of_lt_succ fits, spelled.stopsAt_of_none absent, absent, rfl⟩
    | foreign => cases herror
    | endless => cases herror
  · rintro ⟨j, hj, stop, habsent, rfl⟩
    obtain ⟨bytes, -, -, ⟨hzero, -⟩ | ⟨-, rfl⟩ | ⟨b, hb, -⟩⟩ :=
      hscan.of_stopsAt stop (Nat.lt_succ_of_le hj)
    · rw [habsent] at hzero
      cases hzero
    · rfl
    · rw [habsent] at hb
      cases hb

theorem readName_badName_iff (space : AddressSpace) (ram : Ram) (va : VirtAddr) :
    space.readName ram va = .error .badName ↔
      (∃ j ≤ maxNameLength, space.StopsAt ram va j ∧
        ∃ b, space.byteAt? ram (va.plus j) = some b ∧ 128 ≤ b) ∨
      ∀ j ≤ maxNameLength, ¬space.StopsAt ram va j := by
  have hscan := space.readChars_scanned ram va (maxNameLength + 1)
  rw [readName]
  generalize space.readChars ram va (maxNameLength + 1) = result at hscan
  constructor
  · intro herror
    cases hscan with
    | named => cases herror
    | unreadable => cases herror
    | @foreign bytes b spelled fits here high =>
        have stop := spelled.stopsAt_of_some here (not_plain_of_le high)
        exact .inl ⟨_, Nat.le_of_lt_succ fits, stop, b, here, high⟩
    | endless spelled full =>
        refine .inr fun j hj stop => ?_
        obtain ⟨b, hb, plain⟩ := spelled.plain_before j (full ▸ Nat.lt_succ_of_le hj)
        exact stop.here b hb plain
  · rintro (⟨j, hj, stop, b, hb, high⟩ | hnone)
    · obtain ⟨bytes, -, -, ⟨hzero, -⟩ | ⟨habsent, -⟩ | ⟨-, -, -, rfl⟩⟩ :=
        hscan.of_stopsAt stop (Nat.lt_succ_of_le hj)
      · rw [hb] at hzero
        cases hzero
        exact absurd high (by decide)
      · rw [hb] at habsent
        cases habsent
      · rfl
    · cases hscan with
      | named spelled fits terminated =>
          exact absurd (spelled.stopsAt_of_some terminated not_plain_zero)
            (hnone _ (Nat.le_of_lt_succ fits))
      | unreadable spelled fits absent =>
          exact absurd (spelled.stopsAt_of_none absent) (hnone _ (Nat.le_of_lt_succ fits))
      | foreign => rfl
      | endless => rfl

/-! ## The main result -/

/-- For every space, memory and address, the names that are accepted are those of at most 63
    ASCII bytes that stand there with a terminator after them. Otherwise the scan stops at the
    first index whose byte is unreadable, foreign to a name or the terminator: within the 64
    bytes that are looked at, an unreadable one is reported by its address, and one that is not
    ASCII is a bad name, as are 64 bytes without any such index. -/
theorem names_read_exactly (space : AddressSpace) (ram : Ram) (va : VirtAddr) :
    (∀ name, space.readName ram va = .ok name ↔
      (encodeText name).length ≤ 63 ∧ space.Spells ram va (encodeText name) ∧
        space.byteAt? ram (va.plus (encodeText name).length) = some 0) ∧
    (∀ a, space.readName ram va = .error (.badAddress a) ↔
      ∃ j ≤ 63, space.StopsAt ram va j ∧ space.byteAt? ram (va.plus j) = none ∧
        a = va.plus j) ∧
    (space.readName ram va = .error .badName ↔
      (∃ j ≤ 63, space.StopsAt ram va j ∧
        ∃ b, space.byteAt? ram (va.plus j) = some b ∧ 128 ≤ b) ∨
      ∀ j ≤ 63, ¬space.StopsAt ram va j) :=
  ⟨space.readName_ok_iff ram va, space.readName_badAddress_iff ram va,
    space.readName_badName_iff ram va⟩

/-- Only the first page is mapped. A name that ends with it is read; one that does not is
    unreadable at the next page. -/
example :
    let space : AddressSpace := ⟨FramePool.pageAddr 0, 4⟩
    let ram := ((⟨[], eightFrames⟩ : SpaceSet FramePool).create.map
      ⟨0, ⟨0⟩, ⟨0x900000⟩, pageSize, .userNormal⟩ ⟨FramePool.pageAddr 0, 1⟩).2.memory.ram
    space.readName (ram.writeBytes ⟨0x900ffd⟩ [118, 109, 0]) ⟨0xffd⟩ = .ok "vm" ∧
      space.readName (ram.writeBytes ⟨0x900ffd⟩ [118, 109, 46]) ⟨0xffd⟩ =
        .error (.badAddress ⟨0x1000⟩) := by
  decide +kernel

end AddressSpace

end TaskKernel
