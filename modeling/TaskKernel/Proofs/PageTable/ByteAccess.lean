/-
  TaskKernel.Proofs.PageTable.ByteAccess

  Copies between kernel and user memory, byte by byte. A copy cuts its range at page
  boundaries and translates one address per piece; here it is shown to be the loop that
  translates every address by itself. What it returns, where it stops and what it writes are
  then read off that loop. Writing is so only where the range leads to no table of the space:
  a piece that overwrites a table may change where the next one leads.
-/
import TaskKernel.Proofs.PageTable.Copies
import TaskKernel.Proofs.PageTable.Refinement

namespace TaskKernel

/-! ## Pages -/

theorem Address.pageOffset_plus {kind : AddressKind} {a : Address kind} {i : Nat}
    (h : a.pageOffset + i < pageSize) : (a.plus i).pageOffset = a.pageOffset + i := by
  rw [pageOffset_eq_mod, pageSize] at h
  have ha : a.toNat < 2 ^ 64 := a.raw.isLt
  rw [pageOffset_eq_mod, toNat_plus_of_lt (by omega), pageOffset_eq_mod]
  omega

namespace AddressSpace

variable {space : AddressSpace} {ram ram' start : Ram} {va : VirtAddr} {pa : PhysAddr}

/-- Within a page, addresses move on together. -/
theorem translate_plus (h : space.translate ram va = some pa) {i : Nat}
    (hfit : va.pageOffset + i < pageSize) :
    space.translate ram (va.plus i) = some (pa.plus i) := by
  obtain ⟨hpath, hslot⟩ := Address.slots_eq_of_frameNumber (Address.frameNumber_plus hfit)
  have hleaf : space.leaf ram (va.plus i) = space.leaf ram va := by
    rw [leaf_eq_leafAt, leaf_eq_leafAt, hpath, hslot]
  rw [translate] at h ⊢
  rw [hleaf]
  split at h
  · cases h
  · split at h
    · next hvalid =>
        cases h
        rw [if_pos hvalid, Address.pageOffset_plus hfit, Address.plus_plus]
    · cases h

/-! ## Reading -/

/-- Reads the range byte by byte, up to the first address that is not mapped. -/
def readEach (space : AddressSpace) (ram : Ram) (va : VirtAddr) :
    Nat → Except AccessError Unit × List Byte
  | 0 => (.ok (), [])
  | len + 1 =>
    match space.translate ram va with
    | none => (.error (.badAddress va), [])
    | some pa =>
      let (result, rest) := space.readEach ram (va.plus 1) len
      (result, ram.byte pa :: rest)

theorem readBytes_succ (ram : Ram) (pa : PhysAddr) (n : Nat) :
    ram.readBytes pa (n + 1) = ram.byte pa :: ram.readBytes (pa.plus 1) n := by
  rw [Ram.readBytes, List.range_succ_eq_map, List.map_cons, List.map_map, Address.plus_zero,
    Ram.readBytes]
  congr 1
  refine List.map_congr_left fun i _ => ?_
  rw [Function.comp_apply, Address.plus_one_plus]

/-- The bytes of one page are read together. -/
theorem readEach_page {n : Nat} (hsome : space.translate ram va = some pa)
    (hfit : va.pageOffset + n ≤ pageSize) (len : Nat) :
    space.readEach ram va (n + len) =
      ((space.readEach ram (va.plus n) len).1,
        ram.readBytes pa n ++ (space.readEach ram (va.plus n) len).2) := by
  -- On the bytes of the page; each next one lies one further in the same frame.
  induction n generalizing va pa with
  | zero => rw [Nat.zero_add, Address.plus_zero]; rfl
  | succ n ih =>
      rw [Nat.add_right_comm, readEach, hsome, readBytes_succ, ← Address.plus_one_plus va n]
      cases n with
      | zero => simp only [Nat.zero_add, Address.plus_zero, Ram.readBytes]; rfl
      | succ n =>
          have hnext := translate_plus hsome (i := 1) (by omega)
          have hoffset := Address.pageOffset_plus (a := va) (i := 1) (by omega)
          rw [ih hnext (by omega)]
          rfl

/-- Reading piece by piece is reading byte by byte. -/
theorem readPieces_eq_readEach (space : AddressSpace) (ram : Ram) (va : VirtAddr) (len : Nat) :
    space.readPieces ram va len = space.readEach ram va len := by
  -- On the pieces; the first one is what the range has of its first page.
  induction va, len using readPieces.induct space ram with
  | case1 va len hlen hnone =>
    obtain ⟨rest, rfl⟩ := Nat.exists_eq_succ_of_ne_zero hlen.ne'
    rw [readPieces, dif_pos hlen, hnone, readEach, hnone]
  | case2 va len hlen pa hsome hpos hle _ _ _ ih =>
    have hpiece : pieceLength va len = min (pageSize - va.pageOffset) len := rfl
    have hoffset := va.pageOffset_lt
    have hpage := readEach_page hsome (n := pieceLength va len) (by omega)
      (len - pieceLength va len)
    rw [Nat.add_sub_cancel' hle] at hpage
    rw [readPieces, dif_pos hlen, hsome, hpage]
    dsimp only
    rw [ih]
  | case3 va len hlen =>
    obtain rfl : len = 0 := by omega
    rw [readPieces, dif_neg hlen, readEach]

/-! ## Writing -/

/-- Writes `bytes` in ascending order, each to where its address led in the memory `start`,
    up to the first address that is not mapped. -/
def writeEach (space : AddressSpace) (start ram : Ram) (va : VirtAddr) :
    List Byte → Except AccessError Unit × Ram
  | [] => (.ok (), ram)
  | b :: bytes =>
    match space.translate start va with
    | none => (.error (.badAddress va), ram)
    | some pa => space.writeEach start (ram.setByte pa b) (va.plus 1) bytes

/-- The bytes of one page are written together. -/
theorem writeEach_page {bytes : List Byte} (hsome : space.translate start va = some pa)
    (hfit : va.pageOffset + bytes.length ≤ pageSize) (ram : Ram) (rest : List Byte) :
    space.writeEach start ram va (bytes ++ rest) =
      space.writeEach start (ram.writeBytes pa bytes) (va.plus bytes.length) rest := by
  induction bytes generalizing va pa ram with
  | nil => rw [List.nil_append, List.length_nil, Address.plus_zero]; rfl
  | cons b bytes ih =>
      rw [List.length_cons] at hfit
      rw [List.cons_append, writeEach, hsome, Ram.writeBytes, List.length_cons,
        ← Address.plus_one_plus va bytes.length]
      cases bytes with
      | nil => rw [List.nil_append, List.length_nil, Address.plus_zero]; rfl
      | cons b' bytes =>
          rw [List.length_cons] at hfit
          have hnext := translate_plus hsome (i := 1) (by omega)
          have hoffset := Address.pageOffset_plus (a := va) (i := 1) (by omega)
          exact ih hnext (by rw [List.length_cons]; omega) _

/-- The range leads to no table of the space itself. -/
def AvoidsTables (space : AddressSpace) (ram : Ram) (va : VirtAddr) (len : Nat) : Prop :=
  ∀ path table, path.length ≤ 3 → findTable ram space.root path = some table →
    table.frameNumber ∉ space.framesUnder ram va len

theorem AvoidsTables.rest {n len : Nat} (h : space.AvoidsTables ram va len) :
    space.AvoidsTables ram (va.plus n) (len - n) :=
  fun path table hdepth hfound hunder =>
    h path table hdepth hfound (framesUnder_rest_subset hunder)

/-- Writing piece by piece is writing byte by byte, as long as the tables stay as they are. -/
theorem writePieces_eq_writeEach (ram : Ram) (va : VirtAddr) (bytes : List Byte)
    (avoids : space.AvoidsTables start va bytes.length) (same : space.SameTables start ram) :
    space.writePieces ram va bytes = space.writeEach start ram va bytes := by
  -- On the pieces; the tables stay as they were at the start, so pages lead where they led.
  induction ram, va, bytes using writePieces.induct space with
  | case1 ram va bytes hlen hnone =>
    obtain ⟨b, bytes, rfl⟩ := List.exists_cons_of_length_pos hlen
    rw [writePieces, dif_pos hlen, hnone]
    rw [translate_of_sameTables same] at hnone
    rw [writeEach, hnone]
  | case2 ram va bytes hlen pa hsome hpos piece ih =>
    rw [writePieces, dif_pos hlen, hsome]
    rw [translate_of_sameTables same] at hsome
    obtain ⟨_, -, -, hoffset, hbelow⟩ := place_of_translate hsome
    have hpiece : piece = min (pageSize - va.pageOffset) bytes.length := rfl
    have hin := va.pageOffset_lt
    have htake : (bytes.take piece).length = piece := by
      rw [List.length_take]
      omega
    have hfit : va.pageOffset + (bytes.take piece).length ≤ pageSize := by omega
    have hpage := writeEach_page hsome hfit ram (bytes.drop piece)
    rw [List.take_append_drop, htake] at hpage
    rw [hpage]
    have hunder : pa.frameNumber ∈ space.framesUnder start va bytes.length :=
      ⟨0, hlen, pa, by rwa [Address.plus_zero], rfl⟩
    refine ih ?_ fun path table hdepth hfound => ?_
    · rw [List.length_drop]
      exact avoids.rest
    -- The piece went to a frame under the range, where no table is.
    · refine (ram.frame_writeBytes_of_ne hbelow (by omega) ?_).trans (same path table hdepth hfound)
      intro heq
      exact avoids path table hdepth hfound (heq ▸ hunder)
  | case3 ram va bytes hlen =>
    rw [List.eq_nil_of_length_eq_zero (show bytes.length = 0 by omega), writePieces, writeEach]
    rfl

/-! ## How far a copy gets -/

instance (space : AddressSpace) (ram : Ram) (va : VirtAddr) (len : Nat) :
    Decidable (space.Covers ram va len) :=
  inferInstanceAs (Decidable (∀ i < len, _))

/-- Going through the range ends this way, after so many bytes. -/
inductive Reached (space : AddressSpace) (ram : Ram) (va : VirtAddr) (len : Nat) :
    Except AccessError Unit → Nat → Prop
  | done (mapped : space.Covers ram va len) : Reached space ram va len (.ok ()) len
  | stopped {n : Nat} (before : n < len) (mapped : space.Covers ram va n)
      (absent : space.translate ram (va.plus n) = none) :
      Reached space ram va len (.error (.badAddress (va.plus n))) n

theorem covers_succ {len : Nat} (hsome : space.translate ram va = some pa)
    (hrest : space.Covers ram (va.plus 1) len) : space.Covers ram va (len + 1) := by
  intro i hi
  cases i with
  | zero => rw [Address.plus_zero, hsome]; rfl
  | succ i =>
      have hnext := hrest i (by omega)
      rwa [Address.plus_one_plus] at hnext

theorem Reached.succ {len n : Nat} {result : Except AccessError Unit}
    (hsome : space.translate ram va = some pa) (h : Reached space ram (va.plus 1) len result n) :
    Reached space ram va (len + 1) result (n + 1) := by
  cases h with
  | done mapped => exact .done (covers_succ hsome mapped)
  | stopped before mapped absent =>
      rw [Address.plus_one_plus] at absent ⊢
      exact .stopped (Nat.succ_lt_succ before) (covers_succ hsome mapped) absent

theorem Reached.le {len n : Nat} {result : Except AccessError Unit}
    (h : Reached space ram va len result n) : n ≤ len := by
  cases h with
  | done mapped => exact Nat.le_refl _
  | stopped before mapped absent => exact before.le

theorem readEach_reached (space : AddressSpace) (ram : Ram) (va : VirtAddr) (len : Nat) :
    Reached space ram va len (space.readEach ram va len).1
      (space.readEach ram va len).2.length := by
  induction len generalizing va with
  | zero => exact .done fun i hi => absurd hi (Nat.not_lt_zero i)
  | succ len ih =>
      rw [readEach]
      cases hva : space.translate ram va with
      | none =>
          have hstop : Reached space ram va (len + 1) (.error (.badAddress (va.plus 0))) 0 :=
            .stopped (Nat.succ_pos len) (fun i hi => absurd hi (Nat.not_lt_zero i))
              (by rwa [Address.plus_zero])
          rwa [Address.plus_zero] at hstop
      | some pa => exact (ih (va.plus 1)).succ hva

/-- How many bytes of the range come before the first that is not mapped. -/
def reach (space : AddressSpace) (ram : Ram) (va : VirtAddr) (len : Nat) : Nat :=
  (space.readEach ram va len).2.length

theorem reach_of_none (h : space.translate ram va = none) (len : Nat) :
    space.reach ram va (len + 1) = 0 := by
  rw [reach, readEach, h]
  rfl

theorem reach_of_some (h : space.translate ram va = some pa) (len : Nat) :
    space.reach ram va (len + 1) = space.reach ram (va.plus 1) len + 1 := by
  rw [reach, readEach, h]
  rfl

/-- Writing stops where reading does. -/
theorem writeEach_result (space : AddressSpace) (start ram : Ram) (va : VirtAddr)
    (bytes : List Byte) :
    (space.writeEach start ram va bytes).1 = (space.readEach start va bytes.length).1 := by
  induction bytes generalizing ram va with
  | nil => rfl
  | cons b bytes ih =>
      rw [writeEach, List.length_cons, readEach]
      cases space.translate start va with
      | none => rfl
      | some pa => exact ih _ _

/-! ## What a copy moves -/

/-- The first `n` bytes of `dst` are those of the range. -/
def Fetched (space : AddressSpace) (ram : Ram) (va : VirtAddr) (n : Nat) (dst : List Byte) : Prop :=
  ∀ i < n, ∃ pa, space.translate ram (va.plus i) = some pa ∧ dst[i]? = some (ram.byte pa)

theorem readEach_fetched (space : AddressSpace) (ram : Ram) (va : VirtAddr) (len : Nat) :
    space.Fetched ram va (space.reach ram va len) (space.readEach ram va len).2 := by
  induction len generalizing va with
  | zero => exact fun i hi => absurd hi (Nat.not_lt_zero i)
  | succ len ih =>
      intro i hi
      cases hva : space.translate ram va with
      | none =>
          rw [reach_of_none hva] at hi
          exact absurd hi (Nat.not_lt_zero i)
      | some pa =>
          rw [reach_of_some hva] at hi
          rw [readEach, hva]
          cases i with
          | zero => exact ⟨pa, by rwa [Address.plus_zero], rfl⟩
          | succ i =>
              obtain ⟨pa', hpa', hbyte⟩ := ih (va.plus 1) i (by omega)
              rw [Address.plus_one_plus] at hpa'
              exact ⟨pa', hpa', hbyte⟩

/-- The first `n` bytes of `src` have been written in ascending order, each to where its address
    led in `start`: a byte to which several lead holds the last of them, and every other byte is
    as it was. -/
structure Stored (space : AddressSpace) (start : Ram) (va : VirtAddr) (src : List Byte) (n : Nat)
    (ram ram' : Ram) : Prop where
  inside : ∀ i < n, ∀ pa, space.translate start (va.plus i) = some pa →
    (∀ j < n, i < j → space.translate start (va.plus j) ≠ some pa) →
      src[i]? = some (ram'.byte pa)
  outside : ∀ pa, (∀ i < n, space.translate start (va.plus i) ≠ some pa) →
    ram'.byte pa = ram.byte pa

theorem Stored.zero (space : AddressSpace) (start : Ram) (va : VirtAddr) (src : List Byte)
    (ram : Ram) : space.Stored start va src 0 ram ram where
  inside i hi := absurd hi (Nat.not_lt_zero i)
  outside _ _ := rfl

theorem Stored.succ {b : Byte} {bytes : List Byte} {n : Nat}
    (hsome : space.translate start va = some pa)
    (h : space.Stored start (va.plus 1) bytes n (ram.setByte pa b) ram') :
    space.Stored start va (b :: bytes) (n + 1) ram ram' := by
  refine ⟨fun i hi target htarget hlast => ?_, fun target hnone => ?_⟩
  · cases i with
    | zero =>
        -- Nothing later leads here, so the byte is the one that was written first.
        rw [Address.plus_zero, hsome] at htarget
        obtain rfl := Option.some.inj htarget
        have hkept : ram'.byte pa = (ram.setByte pa b).byte pa := by
          refine h.outside pa fun j hj => ?_
          rw [Address.plus_one_plus]
          exact hlast (j + 1) (Nat.succ_lt_succ hj) (Nat.succ_pos j)
        rw [hkept, Ram.byte_setByte_self]
        rfl
    | succ i =>
        refine h.inside i (Nat.lt_of_succ_lt_succ hi) target (by rwa [Address.plus_one_plus]) fun j hj hij => ?_
        rw [Address.plus_one_plus]
        exact hlast (j + 1) (Nat.succ_lt_succ hj) (Nat.succ_lt_succ hij)
  · have hne : target ≠ pa := by
      rintro rfl
      exact hnone 0 (Nat.succ_pos n) (by rwa [Address.plus_zero])
    refine (h.outside target fun i hi => ?_).trans (Ram.byte_setByte_of_ne ram b hne)
    rw [Address.plus_one_plus]
    exact hnone (i + 1) (Nat.succ_lt_succ hi)

theorem writeEach_stored (space : AddressSpace) (start ram : Ram) (va : VirtAddr)
    (bytes : List Byte) :
    space.Stored start va bytes (space.reach start va bytes.length) ram
      (space.writeEach start ram va bytes).2 := by
  -- On the bytes; the memory that is written moves on, the one that is translated in stays.
  induction bytes generalizing ram va with
  | nil => exact .zero space start va [] ram
  | cons b bytes ih =>
      rw [writeEach, List.length_cons]
      cases hva : space.translate start va with
      | none =>
          rw [reach_of_none hva]
          exact .zero space start va (b :: bytes) ram
      | some pa =>
          rw [reach_of_some hva]
          exact (ih (ram.setByte pa b) (va.plus 1)).succ hva

/-! ## Copies -/

/-- An access to the range ends this way, after so many bytes. A range that does not end within
    the user half is refused at its first address. -/
inductive Accessed (space : AddressSpace) (ram : Ram) (va : VirtAddr) (len : Nat) :
    Except AccessError Unit → Nat → Prop
  | inRange {result : Except AccessError Unit} {n : Nat} (range : va.toNat + len ≤ 2 ^ 48)
      (reached : Reached space ram va len result n) : Accessed space ram va len result n
  | refused (range : 2 ^ 48 < va.toNat + len) :
      Accessed space ram va len (.error (.badAddress va)) 0

theorem Accessed.ok_iff {len n : Nat} {result : Except AccessError Unit}
    (h : Accessed space ram va len result n) :
    result = .ok () ↔ va.toNat + len ≤ 2 ^ 48 ∧ space.Covers ram va len := by
  cases h with
  | inRange range reached =>
      cases reached with
      | done mapped => exact ⟨fun _ => ⟨range, mapped⟩, fun _ => rfl⟩
      | stopped before mapped absent =>
          refine ⟨by rintro ⟨⟩, fun hok => ?_⟩
          have hmapped := hok.2 n before
          rw [absent] at hmapped
          cases hmapped
  | refused range => exact ⟨by rintro ⟨⟩, fun hok => absurd hok.1 (by omega)⟩

theorem Accessed.length_of_ok {len n : Nat} (h : Accessed space ram va len (.ok ()) n) :
    n = len := by
  cases h with
  | inRange range reached =>
      cases reached with
      | done mapped => rfl

theorem inUserSpace_iff {len : Nat} : inUserSpace va len = true ↔ va.toNat + len ≤ 2 ^ 48 :=
  decide_eq_true_iff

theorem copyFrom_accessed (space : AddressSpace) (ram : Ram) (va : VirtAddr) (buffer : List Byte) :
    ∃ n, Accessed space ram va buffer.length (space.copyFrom ram va buffer).1 n ∧
      space.Fetched ram va n (space.copyFrom ram va buffer).2 ∧
      (space.copyFrom ram va buffer).2.drop n = buffer.drop n ∧
      (space.copyFrom ram va buffer).2.length = buffer.length := by
  rw [copyFrom]
  split
  · next hin =>
      have hreached := space.readEach_reached ram va buffer.length
      have hfetched := space.readEach_fetched ram va buffer.length
      have hle := hreached.le
      rw [readPieces_eq_readEach]
      refine ⟨_, .inRange (inUserSpace_iff.1 hin) hreached, fun i hi => ?_, ?_, ?_⟩
      · obtain ⟨pa, hpa, hbyte⟩ := hfetched i hi
        exact ⟨pa, hpa, (List.getElem?_append_left hi).trans hbyte⟩
      · exact List.drop_left
      · rw [List.length_append, List.length_drop]
        omega
  · next hout =>
      have hrange : 2 ^ 48 < va.toNat + buffer.length := by
        rw [inUserSpace_iff] at hout
        omega
      exact ⟨0, .refused hrange, fun i hi => absurd hi (Nat.not_lt_zero i), rfl, rfl⟩

theorem copyTo_accessed (va : VirtAddr) (src : List Byte)
    (avoids : space.AvoidsTables ram va src.length) :
    ∃ n, Accessed space ram va src.length (space.copyTo ram va src).1 n ∧
      space.Stored ram va src n ram (space.copyTo ram va src).2 := by
  rw [copyTo]
  split
  · next hin =>
      rw [writePieces_eq_writeEach ram va src avoids fun _ _ _ _ => rfl]
      refine ⟨_, .inRange (inUserSpace_iff.1 hin) ?_, writeEach_stored space ram ram va src⟩
      rw [writeEach_result]
      exact space.readEach_reached ram va src.length
  · next hout =>
      have hrange : 2 ^ 48 < va.toNat + src.length := by
        rw [inUserSpace_iff] at hout
        omega
      exact ⟨0, .refused hrange, .zero space ram va src ram⟩

theorem frame_writeEach {n : Nat} (ram : Ram) (va : VirtAddr) (bytes : List Byte)
    (hout : n ∉ space.framesUnder start va bytes.length) :
    (space.writeEach start ram va bytes).2.frame n = ram.frame n := by
  induction bytes generalizing ram va with
  | nil => rfl
  | cons b bytes ih =>
      rw [writeEach]
      cases hva : space.translate start va with
      | none => rfl
      | some pa =>
          have hne : n ≠ pa.frameNumber := by
            rintro rfl
            exact hout ⟨0, Nat.succ_pos _, pa, by rwa [Address.plus_zero], rfl⟩
          refine (ih _ _ fun hin => hout ?_).trans (ram.frame_setByte_of_ne b hne)
          exact framesUnder_rest_subset (n := 1) hin

/-- A copy that avoids the tables stays within the frames that the range leads to. -/
theorem frame_copyTo (src : List Byte) (avoids : space.AvoidsTables ram va src.length) {n : Nat}
    (hout : n ∉ space.framesUnder ram va src.length) :
    (space.copyTo ram va src).2.frame n = ram.frame n := by
  rw [copyTo]
  split
  · rw [writePieces_eq_writeEach ram va src avoids fun _ _ _ _ => rfl]
    exact frame_writeEach ram va src hout
  · rfl

/-- It leaves every address leading where it led. -/
theorem translate_copyTo (src : List Byte) (avoids : space.AvoidsTables ram va src.length)
    (va' : VirtAddr) :
    space.translate (space.copyTo ram va src).2 va' = space.translate ram va' :=
  translate_of_sameTables (fun path table hdepth hfound =>
    frame_copyTo src avoids (avoids path table hdepth hfound)) va'

/-- A copy out of user memory succeeds for mapped ranges of the user half, whatever the
    rights of user mode there. -/
theorem copyFrom_ok_iff (space : AddressSpace) (ram : Ram) (va : VirtAddr) (buffer : List Byte) :
    (space.copyFrom ram va buffer).1 = .ok () ↔
      inUserSpace va buffer.length = true ∧ space.Covers ram va buffer.length := by
  obtain ⟨n, accessed, -⟩ := space.copyFrom_accessed ram va buffer
  rw [inUserSpace_iff]
  exact accessed.ok_iff

theorem Clear.avoidsTables (clear : space.Clear ram) (va : VirtAddr) (len : Nat) :
    space.AvoidsTables ram va len := by
  rintro path table hdepth hfound ⟨i, -, pa, hpa, hframe⟩
  exact clear _ pa hpa path table hdepth hfound hframe.symm

/-- A copy into user memory succeeds for mapped ranges of the user half and stays within
    the frames that they lead to, whatever the rights of user mode there. -/
theorem copyTo_spec (clear : space.Clear ram) (va : VirtAddr) (bytes : List Byte) :
    ((space.copyTo ram va bytes).1 = .ok () ↔
      inUserSpace va bytes.length = true ∧ space.Covers ram va bytes.length) ∧
    ∀ n, n ∉ space.framesUnder ram va bytes.length →
      (space.copyTo ram va bytes).2.frame n = ram.frame n := by
  have avoids := clear.avoidsTables va bytes.length
  obtain ⟨n, accessed, -⟩ := copyTo_accessed va bytes avoids
  rw [inUserSpace_iff]
  exact ⟨accessed.ok_iff, fun n hout => frame_copyTo bytes avoids hout⟩

/-! ## Reading back -/

/-- Different pages of the range lead to different frames. -/
def Injective (space : AddressSpace) (ram : Ram) (va : VirtAddr) (len : Nat) : Prop :=
  ∀ i < len, ∀ j < len, (space.translate ram (va.plus i)).map Address.frameNumber =
    (space.translate ram (va.plus j)).map Address.frameNumber →
      (va.plus i).frameNumber = (va.plus j).frameNumber

instance (space : AddressSpace) (ram : Ram) (va : VirtAddr) (len : Nat) :
    Decidable (space.Injective ram va len) :=
  inferInstanceAs (Decidable (∀ i < len, ∀ j < len, _ → _))

/-- Two addresses of such a range lead to the same place only if they are the same. -/
theorem Injective.eq {len i j : Nat} (h : space.Injective ram va len)
    (hrange : va.toNat + len ≤ 2 ^ 48) (hi : i < len) (hj : j < len) (hpa : space.translate ram (va.plus i) = some pa)
    (hpa' : space.translate ram (va.plus j) = some pa) : i = j := by
  have hpage := h i hi j hj (by rw [hpa, hpa'])
  obtain ⟨_, -, -, hoffset, -⟩ := place_of_translate hpa
  obtain ⟨_, -, -, hoffset', -⟩ := place_of_translate hpa'
  rw [hoffset, Address.pageOffset_eq_mod, Address.pageOffset_eq_mod] at hoffset'
  rw [Address.frameNumber, Address.frameNumber] at hpage
  rw [Address.toNat_plus_of_lt (by omega), Address.toNat_plus_of_lt (by omega)] at hpage hoffset'
  omega

theorem copyFrom_copyTo {src : List Byte} (avoids : space.AvoidsTables ram va src.length)
    (injective : space.Injective ram va src.length) (hok : (space.copyTo ram va src).1 = .ok ())
    {buffer : List Byte} (hlength : buffer.length = src.length) :
    space.copyFrom (space.copyTo ram va src).2 va buffer = (.ok (), src) := by
  obtain ⟨n, accessed, stored⟩ := copyTo_accessed va src avoids
  obtain ⟨hrange, hcovers⟩ := accessed.ok_iff.1 hok
  rw [hok] at accessed
  obtain rfl := accessed.length_of_ok
  obtain ⟨m, accessed', fetched, -, hsize⟩ :=
    space.copyFrom_accessed (space.copyTo ram va src).2 va buffer
  -- The tables are as before, so reading gets as far as writing did.
  have hread : (space.copyFrom (space.copyTo ram va src).2 va buffer).1 = .ok () := by
    refine accessed'.ok_iff.2 ⟨by rwa [hlength], fun i hi => ?_⟩
    rw [translate_copyTo src avoids]
    exact hcovers i (hlength ▸ hi)
  rw [hread] at accessed'
  obtain rfl := accessed'.length_of_ok
  refine Prod.ext hread (List.ext_getElem? fun i => ?_)
  by_cases hi : i < src.length
  · obtain ⟨pa, hpa, hbyte⟩ := fetched i (hlength ▸ hi)
    rw [translate_copyTo src avoids] at hpa
    -- Only one byte was written to this place, so it is the one that is read.
    refine hbyte.trans (stored.inside i hi pa hpa fun j hj hij hpa' => ?_).symm
    exact hij.ne (injective.eq hrange hi hj hpa hpa')
  · rw [List.getElem?_eq_none (by rw [hsize, hlength]; exact Nat.le_of_not_lt hi),
      List.getElem?_eq_none (Nat.le_of_not_lt hi)]

/-- What leads to frames that nobody holds avoids the tables. -/
theorem avoidsTables_of_carries {F : Type} [FrameSource F] {L : FrameLedger F} {mem : Memory F}
    {roots : Set PhysAddr} (h : L.Carries mem roots) (hroot : space.root ∈ roots) {len : Nat}
    (hout : ∀ n ∈ space.framesUnder mem.ram va len, n ∉ L.held mem.frames) :
    space.AvoidsTables mem.ram va len :=
  fun _ table hdepth hfound hunder =>
    hout table.frameNumber hunder (h.forest.held_of_reached ⟨hroot, hdepth, hfound⟩)

/-! ## The main result -/

/-- Copies out of user memory are byte-wise for every space, memory and range, and so are
    copies into it where the range leads to no table of the space. Both succeed for ranges of
    the user half that are mapped throughout, and otherwise report the first address of the
    range when it leaves the user half, or the first one that is not mapped; up to there, every
    byte comes from and goes to where its own address leads. What was copied in is read back
    where different pages lead to different frames. -/
theorem user_copies_bytewise (space : AddressSpace) (ram : Ram) (va : VirtAddr) :
    (∀ buffer : List Byte,
      ((space.copyFrom ram va buffer).1 = .ok () ↔
        va.toNat + buffer.length ≤ 2 ^ 48 ∧ space.Covers ram va buffer.length) ∧
      ∃ n, Accessed space ram va buffer.length (space.copyFrom ram va buffer).1 n ∧
        space.Fetched ram va n (space.copyFrom ram va buffer).2 ∧
        (space.copyFrom ram va buffer).2.drop n = buffer.drop n ∧
        (space.copyFrom ram va buffer).2.length = buffer.length) ∧
    ∀ src : List Byte,
      (2 ^ 48 < va.toNat + src.length → space.copyTo ram va src = (.error (.badAddress va), ram)) ∧
      (space.AvoidsTables ram va src.length →
        ((space.copyTo ram va src).1 = .ok () ↔
          va.toNat + src.length ≤ 2 ^ 48 ∧ space.Covers ram va src.length) ∧
        (∃ n, Accessed space ram va src.length (space.copyTo ram va src).1 n ∧
          space.Stored ram va src n ram (space.copyTo ram va src).2) ∧
        (space.Injective ram va src.length → (space.copyTo ram va src).1 = .ok () →
          ∀ buffer : List Byte, buffer.length = src.length →
            space.copyFrom (space.copyTo ram va src).2 va buffer = (.ok (), src))) := by
  refine ⟨fun buffer => ?_, fun src => ⟨fun hrange => ?_, fun avoids => ?_⟩⟩
  · obtain ⟨n, accessed, hrest⟩ := space.copyFrom_accessed ram va buffer
    exact ⟨accessed.ok_iff, n, accessed, hrest⟩
  · rw [copyTo, if_neg]
    rw [inUserSpace_iff]
    omega
  · obtain ⟨n, accessed, stored⟩ := copyTo_accessed va src avoids
    exact ⟨accessed.ok_iff, ⟨n, accessed, stored⟩,
      fun injective hok _ hlength => copyFrom_copyTo avoids injective hok hlength⟩

end AddressSpace

/-- One space with two pages mapped, the first of them at `va`. -/
def twoPages (va pa va' pa' : Word) : SpaceSet FramePool :=
  let spaces := ((⟨[], eightFrames⟩ : SpaceSet FramePool).create.map
    ⟨0, ⟨va⟩, ⟨pa⟩, pageSize, .userNormal⟩ ⟨FramePool.pageAddr 0, 1⟩).2
  (spaces.map ⟨0, ⟨va'⟩, ⟨pa'⟩, pageSize, .userNormal⟩ ⟨FramePool.pageAddr 0, 4⟩).2

namespace AddressSpace

/-- Three bytes go to the end of one page and the start of the next, whose frames are apart,
    and are read back from there. -/
theorem user_copies_bytewise_split :
    let space : AddressSpace := ⟨FramePool.pageAddr 0, 4⟩
    let ram := (twoPages 0 0x900000 0x1000 0x902000).memory.ram
    (space.copyTo ram ⟨0xffe⟩ [1, 2, 3]).1 = .ok () ∧
      space.copyFrom (space.copyTo ram ⟨0xffe⟩ [1, 2, 3]).2 ⟨0xffe⟩ [0, 0, 0] = (.ok (), [1, 2, 3]) := by
  intro space ram
  have run : SpaceSet.Run ⟨[], eightFrames⟩ _ (twoPages 0 0x900000 0x1000 0x902000) :=
    (SpaceSet.Run.start.create.map ⟨0, ⟨0⟩, ⟨0x900000⟩, pageSize, .userNormal⟩
      ⟨by decide, by decide, by decide⟩ ⟨FramePool.pageAddr 0, 1⟩ (by decide +kernel)).map
      ⟨0, ⟨0x1000⟩, ⟨0x902000⟩, pageSize, .userNormal⟩ ⟨by decide, by decide, by decide⟩
      ⟨FramePool.pageAddr 0, 4⟩ (by decide +kernel)
  have sound := (SpaceSet.Sound.start eightFrames_valid).run run
  have avoids : space.AvoidsTables ram ⟨0xffe⟩ 3 := by
    refine avoidsTables_of_carries sound.carries ⟨0, by decide +kernel⟩ ?_
    rintro _ ⟨i, hi, pa, hpa, rfl⟩ ⟨page, hpage, hframe⟩
    -- Both pages lead far behind the last frame of the pool.
    have hfar : ∀ i < 3, (space.translate ram (Address.plus ⟨0xffe⟩ i)).all
        (0x900 ≤ ·.frameNumber) = true := by decide +kernel
    have hpool : (twoPages 0 0x900000 0x1000 0x902000).memory.frames.used.length = 8 := by
      decide +kernel
    have hbehind := hfar i hi
    obtain ⟨hlt, -⟩ := List.getElem?_eq_some_iff.1 hpage
    rw [hpa, Option.all_some, decide_eq_true_iff, hframe, FramePool.frameOfPage] at hbehind
    have hbase : poolBase.toNat / pageSize = 0x100 := by decide
    omega
  obtain ⟨-, hwrites⟩ := user_copies_bytewise space ram ⟨0xffe⟩
  obtain ⟨hok, -, hback⟩ := (hwrites [1, 2, 3]).2 avoids
  have hwritten := hok.2 ⟨by decide, by decide +kernel⟩
  exact ⟨hwritten, hback (by decide +kernel) hwritten [0, 0, 0] rfl⟩

/-- The first of two pages leads to the table that holds the descriptor of the second, and the
    bytes that go there clear it: the second page was mapped, but is not when it is reached. -/
theorem user_copy_unmaps_next_page :
    let space : AddressSpace := ⟨FramePool.pageAddr 0, 4⟩
    let ram := (twoPages 0x1fe000 0x103000 0x1ff000 0x900000).memory.ram
    let src : List Byte := List.replicate 9 0
    (⟨0x1feff8⟩ : VirtAddr).toNat + src.length ≤ 2 ^ 48 ∧
      space.Covers ram ⟨0x1feff8⟩ src.length ∧
      (space.copyTo ram ⟨0x1feff8⟩ src).1 = .error (.badAddress ⟨0x1ff000⟩) := by
  intro space ram src
  refine ⟨by decide, by decide +kernel, ?_⟩
  have hfirst : space.translate ram ⟨0x1feff8⟩ = some ⟨0x103ff8⟩ := by decide +kernel
  have hsecond : space.translate (ram.writeBytes ⟨0x103ff8⟩ (src.take 8)) ⟨0x1ff000⟩ = none := by
    decide +kernel
  rw [copyTo, if_pos (by decide), writePieces, dif_pos (by decide), hfirst]
  show (space.writePieces (ram.writeBytes ⟨0x103ff8⟩ (src.take 8)) ⟨0x1ff000⟩ (src.drop 8)).1 = _
  rw [writePieces, dif_pos (by decide), hsecond]

end AddressSpace

end TaskKernel
