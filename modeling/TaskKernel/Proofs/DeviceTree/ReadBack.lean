/-
  TaskKernel.Proofs.DeviceTree.ReadBack

  A devicetree that was written reads back token by token. What stands at an offset is
  told by how the bytes split there: `pre` up to the offset, then a number, a name or a
  token, then the rest. A blob that was written from tokens has those tokens, no-operation
  tokens included, and ends well.
-/
import Mathlib.Algebra.Ring.Nat
import TaskKernel.DeviceTree.Writer

namespace TaskKernel.DeviceTree

/-! ## Reading at an offset -/

section

variable {bytes pre post : List Byte}

@[simp] theorem length_cellBytes (n : Nat) : (cellBytes n).length = 4 := rfl

/-- A number read where it was written. -/
theorem cell_of_eq {n : Nat} (h : bytes = pre ++ (cellBytes n ++ post)) (hn : n < 2 ^ 32) :
    cell bytes pre.length = .ok n := by
  rw [cell, if_pos, h, List.drop_left, List.take_left' (length_cellBytes n), bigEndian_cellBytes hn]
  rw [h, List.length_append, List.length_append, length_cellBytes]
  omega

/-- A terminated name read where it was written. -/
theorem stringFrom_of_eq {name : String} (h : bytes = pre ++ (encodeText name ++ 0 :: post))
    (hname : '\x00' ∉ name.toList) : stringFrom bytes pre.length = .ok name := by
  have hzero := zero_notMem_encodeText hname
  have hlength : ¬ bytes.length < pre.length := by
    rw [h, List.length_append]
    omega
  rw [stringFrom, if_neg hlength, h, List.drop_left]
  simp only [List.contains_eq_mem, List.mem_append, List.mem_cons, true_or, or_true, decide_true,
    if_true, untilNul_append_zero hzero, decodeText?_encodeText]

end

/-! ## Tokens -/

theorem align4_add_of_dvd {m : Nat} (h : 4 ∣ m) (n : Nat) : align4 (m + n) = m + align4 n := by
  obtain ⟨k, rfl⟩ := h
  simp only [align4]
  omega

namespace Token

/-- The name in a token. -/
def name? : Token → Option String
  | beginNode name => some name
  | property name _ => some name
  | _ => none

/-- A token that can be written: its name ends where its terminator stands, and it is not the
    end mark, which the writer adds itself. -/
structure Writable (t : Token) : Prop where
  ne_finish : t ≠ .finish
  terminated : ∀ name, t.name? = some name → '\x00' ∉ name.toList

instance (t : Token) : Decidable t.Writable :=
  decidable_of_iff (t ≠ .finish ∧ ∀ name ∈ t.name?, '\x00' ∉ name.toList)
    ⟨fun h => ⟨h.1, h.2⟩, fun h => ⟨h.ne_finish, h.terminated⟩⟩

theorem four_dvd_length_toBytes (t : Token) (nameOffset : Nat) :
    4 ∣ (t.toBytes nameOffset).length := by
  cases t with
  | beginNode name =>
      rw [toBytes, List.length_append, length_cellBytes, length_padded]
      exact Nat.dvd_add (Nat.dvd_refl 4) (align4_dvd _)
  | endNode | nop | finish => exact Nat.dvd_refl 4
  | property name value =>
      simp only [toBytes, List.length_append, length_cellBytes, length_padded]
      exact Nat.dvd_add (by omega) (align4_dvd _)

end Token

namespace Blob

variable {b : Blob} {pre post : List Byte}

theorem readBegin_of_eq {name : String} (hdvd : 4 ∣ pre.length)
    (h : b.bytes = pre ++ (padded (encodeText name ++ [0]) ++ post))
    (hname : '\x00' ∉ name.toList) :
    b.readBegin pre.length =
      .ok ⟨.beginNode name, pre.length + (padded (encodeText name ++ [0])).length⟩ := by
  have hsplit : b.bytes = pre ++ (encodeText name ++ 0 :: (List.replicate
      (align4 (encodeText name ++ [0]).length - (encodeText name ++ [0]).length) 0 ++ post)) := by
    rw [h, padded]
    simp only [List.append_assoc, List.cons_append, List.nil_append]
  rw [readBegin, stringFrom_of_eq hsplit hname]
  simp only [length_padded, ← align4_add_of_dvd hdvd, List.length_append, List.length_singleton,
    Nat.add_assoc]

theorem readProperty_of_eq {name : String} {value : List Byte} {nameOffset : Nat}
    (hdvd : 4 ∣ pre.length)
    (h : b.bytes = pre ++ (cellBytes value.length ++ cellBytes nameOffset ++ padded value ++ post))
    (hsize : b.bytes.length < 2 ^ 32) {strings strings' : List Byte}
    (hstrings : b.bytes = strings ++ (encodeText name ++ 0 :: strings'))
    (hoffset : strings.length = b.stringsOffset + nameOffset) (hname : '\x00' ∉ name.toList) :
    b.readProperty pre.length =
      .ok ⟨.property name value, pre.length + 8 + (padded value).length⟩ := by
  have hlength := congrArg List.length h
  have hplace := congrArg List.length hstrings
  simp only [List.length_append, length_cellBytes, length_padded] at hlength hplace
  have hvalue := le_align4 value.length
  have hcell : cell b.bytes pre.length = .ok value.length := by
    have hsplit : b.bytes = pre ++ (cellBytes value.length ++
        (cellBytes nameOffset ++ (padded value ++ post))) := by
      rw [h]
      simp only [List.append_assoc]
    exact cell_of_eq hsplit (by omega)
  have hcell' : cell b.bytes (pre.length + 4) = .ok nameOffset := by
    have hsplit : b.bytes = (pre ++ cellBytes value.length) ++
        (cellBytes nameOffset ++ (padded value ++ post)) := by
      rw [h]
      simp only [List.append_assoc]
    have hcell' := cell_of_eq hsplit (by omega)
    rwa [List.length_append, length_cellBytes] at hcell'
  have hstring : stringFrom b.bytes (b.stringsOffset + nameOffset) = .ok name := by
    rw [← hoffset]
    exact stringFrom_of_eq hstrings hname
  have hread : (b.bytes.drop (pre.length + 8)).take value.length = value := by
    have hsplit : b.bytes = (pre ++ cellBytes value.length ++ cellBytes nameOffset) ++
        (value ++ (List.replicate (align4 value.length - value.length) 0 ++ post)) := by
      rw [h, padded]
      simp only [List.append_assoc]
    rw [hsplit, List.drop_left' (by simp), List.take_left' rfl]
  have hdvd' : 4 ∣ pre.length + 8 := Nat.dvd_add hdvd (by omega)
  rw [readProperty, hcell, hcell']
  simp only [hstring, hread, length_padded, align4_add_of_dvd hdvd']
  rw [if_neg (by omega)]

/-- A token reads back where it was written, if its name stands where it says. -/
theorem readToken_of_eq {t : Token} {nameOffset : Nat} (hdvd : 4 ∣ pre.length)
    (h : b.bytes = pre ++ (t.toBytes nameOffset ++ post)) (hsize : b.bytes.length < 2 ^ 32)
    {strings strings' : List Byte} (hstrings : b.bytes = strings ++ (t.stringBytes ++ strings'))
    (hoffset : strings.length = b.stringsOffset + nameOffset)
    (hname : ∀ name, t.name? = some name → '\x00' ∉ name.toList) :
    b.readToken pre.length = .ok ⟨t, pre.length + (t.toBytes nameOffset).length⟩ := by
  have hbody (n : Nat) (body : List Byte) (heq : t.toBytes nameOffset = cellBytes n ++ body)
      (hn : n < 2 ^ 32) : cell b.bytes pre.length = .ok n ∧
        b.bytes = (pre ++ cellBytes n) ++ (body ++ post) := by
    rw [heq, List.append_assoc] at h
    refine ⟨cell_of_eq h hn, ?_⟩
    rw [h]
    simp only [List.append_assoc]
  have hnext (n : Nat) : (pre ++ cellBytes n).length = pre.length + 4 := by simp
  have hdvd' : 4 ∣ pre.length + 4 := Nat.dvd_add hdvd (Nat.dvd_refl 4)
  cases t with
  | beginNode name =>
      obtain ⟨hcell, hsplit⟩ := hbody 1 (padded (encodeText name ++ [0])) rfl (by omega)
      have hread := readBegin_of_eq (by rwa [hnext]) hsplit (hname name rfl)
      rw [hnext] at hread
      simp only [readToken, hcell, hread, Token.toBytes, List.length_append, length_cellBytes,
        Nat.add_assoc]
  | endNode =>
      obtain ⟨hcell, -⟩ := hbody 2 [] rfl (by omega)
      simp only [readToken, hcell, Token.toBytes, length_cellBytes]
  | property name value =>
      obtain ⟨hcell, hsplit⟩ := hbody 3 (cellBytes value.length ++ cellBytes nameOffset ++
        padded value) rfl (by omega)
      have hplace : b.bytes = strings ++ (encodeText name ++ 0 :: strings') := by
        rw [hstrings, Token.stringBytes, List.append_assoc, List.singleton_append]
      have hread := readProperty_of_eq (by rwa [hnext]) hsplit hsize hplace hoffset (hname name rfl)
      have hlength : pre.length + ((Token.property name value).toBytes nameOffset).length =
          pre.length + 4 + 8 + (padded value).length := by
        simp only [Token.toBytes, List.length_append, length_cellBytes]
        omega
      rw [hnext] at hread
      simp only [readToken, hcell, hread, hlength]
  | nop =>
      obtain ⟨hcell, -⟩ := hbody 4 [] rfl (by omega)
      simp only [readToken, hcell, Token.toBytes, length_cellBytes]
  | finish =>
      obtain ⟨hcell, -⟩ := hbody 9 [] rfl (by omega)
      simp only [readToken, hcell, Token.toBytes, length_cellBytes]

/-! ## The structure block -/

theorem tokensFrom_of_error {offset : Nat} {e : TreeError} (h : b.readToken offset = .error e) :
    b.tokensFrom offset = ⟨[], .error e⟩ := by
  rw [tokensFrom]
  split
  · next heq =>
      rw [h] at heq
      cases heq
      rfl
  · next heq =>
      rw [h] at heq
      cases heq

theorem tokensFrom_of_finish {offset next : Nat}
    (h : b.readToken offset = .ok ⟨.finish, next⟩) : b.tokensFrom offset = ⟨[], .ok ()⟩ := by
  rw [tokensFrom]
  split
  · next heq =>
      rw [h] at heq
      cases heq
  · next heq =>
      rw [h] at heq
      cases heq
      rfl

theorem tokensFrom_of_token {offset next : Nat} {t : Token} (h : b.readToken offset = .ok ⟨t, next⟩)
    (ht : t ≠ .finish) : b.tokensFrom offset =
      { b.tokensFrom next with tokens := t :: (b.tokensFrom next).tokens } := by
  rw [tokensFrom]
  split
  · next heq =>
      rw [h] at heq
      cases heq
  · next heq =>
      rw [h] at heq
      cases heq
      exact if_neg ht

/-- Written tokens read back in a row, the first from the start of a structure block or from
    somewhere inside, where the names before it take up `used` bytes of the strings. -/
theorem tokensFrom_of_eq {tokens : List Token} (hwritable : ∀ t ∈ tokens, t.Writable)
    (hsize : b.bytes.length < 2 ^ 32) {used : Nat} {strings strings' : List Byte}
    (hdvd : 4 ∣ pre.length)
    (h : b.bytes = pre ++ (structureBytes used (tokens ++ [.finish]) ++ post))
    (hstrings : b.bytes = strings ++ (tokens.flatMap Token.stringBytes ++ strings'))
    (hoffset : strings.length = b.stringsOffset + used) :
    b.tokensFrom pre.length = ⟨tokens, .ok ()⟩ := by
  induction tokens generalizing pre used strings with
  | nil =>
      rw [List.nil_append, structureBytes, structureBytes, List.append_nil] at h
      exact tokensFrom_of_finish
        (readToken_of_eq hdvd h hsize hstrings hoffset fun name hname => by cases hname)
  | cons t tokens ih =>
      rw [List.forall_mem_cons] at hwritable
      obtain ⟨hfirst, hrest⟩ := hwritable
      rw [List.cons_append, structureBytes, List.append_assoc] at h
      rw [List.flatMap_cons, List.append_assoc] at hstrings
      have hread := readToken_of_eq hdvd h hsize hstrings hoffset hfirst.terminated
      -- Both what is read and the names in use have moved on by this token.
      have hdvd' : 4 ∣ (pre ++ t.toBytes used).length := by
        rw [List.length_append]
        exact Nat.dvd_add hdvd (t.four_dvd_length_toBytes used)
      have hoffset' : (strings ++ t.stringBytes).length =
          b.stringsOffset + (used + t.stringBytes.length) := by
        rw [List.length_append, hoffset, Nat.add_assoc]
      rw [← List.append_assoc] at h hstrings
      have hnext := ih hrest hdvd' h hstrings hoffset'
      rw [List.length_append] at hnext
      rw [tokensFrom_of_token hread hfirst.ne_finish, hnext]

end Blob

/-! ## Blobs -/

theorem length_flatMap_cellBytes (values : List Nat) :
    (values.flatMap cellBytes).length = 4 * values.length := by
  induction values with
  | nil => rfl
  | cons n values ih =>
      rw [List.flatMap_cons, List.length_append, ih, length_cellBytes, List.length_cons]
      omega

/-- The numbers at the start of the bytes read back by their index. -/
theorem cell_flatMap {values : List Nat} {i : Nat} (h : i < values.length)
    (hsmall : values[i] < 2 ^ 32) (rest : List Byte) :
    cell (values.flatMap cellBytes ++ rest) (4 * i) = .ok values[i] := by
  have hvalues : values = values.take i ++ values[i] :: values.drop (i + 1) := by
    rw [← List.drop_eq_getElem_cons h, List.take_append_drop]
  have hsplit := congrArg (fun values => values.flatMap cellBytes ++ rest) hvalues
  simp only [List.flatMap_append, List.flatMap_cons, List.append_assoc] at hsplit
  have hlength : ((values.take i).flatMap cellBytes).length = 4 * i := by
    rw [length_flatMap_cellBytes, List.length_take_of_le (Nat.le_of_lt h)]
  rw [← hlength]
  exact cell_of_eq hsplit hsmall

/-- The structure block with the given tokens. -/
def blockBytes (tokens : List Token) : List Byte := structureBytes 0 (tokens ++ [.finish])

/-- The strings block that belongs to the given tokens. -/
def stringsBytes (tokens : List Token) : List Byte := tokens.flatMap Token.stringBytes

/-- The numbers in the header of a written blob. -/
def headerCells (tokens : List Token) : List Nat :=
  [treeMagic, headerLength + (blockBytes tokens).length + (stringsBytes tokens).length,
    headerLength, headerLength + (blockBytes tokens).length, 0, 17, 16, 0,
    (stringsBytes tokens).length, (blockBytes tokens).length]

/-- The end mark is there even if nothing else is. -/
theorem four_le_length_structureBytes (tokens : List Token) (used : Nat) :
    4 ≤ (structureBytes used (tokens ++ [.finish])).length := by
  induction tokens generalizing used with
  | nil => exact Nat.le_refl 4
  | cons t tokens ih =>
      rw [List.cons_append, structureBytes, List.length_append]
      exact Nat.le_add_left_of_le (ih _)

theorem length_headerCells (tokens : List Token) :
    ((headerCells tokens).flatMap cellBytes).length = headerLength := by
  simp [headerCells, headerLength]

theorem writeTokens_eq (tokens : List Token) : writeTokens tokens =
    (headerCells tokens).flatMap cellBytes ++ (blockBytes tokens ++ stringsBytes tokens) := by
  rw [← List.append_assoc]
  rfl

theorem length_writeTokens (tokens : List Token) : (writeTokens tokens).length =
    headerLength + (blockBytes tokens).length + (stringsBytes tokens).length := by
  rw [writeTokens_eq, List.length_append, List.length_append, length_headerCells, Nat.add_assoc]

/-- What the header of a written blob says. -/
theorem cell_writeTokens {tokens : List Token} (hsize : (writeTokens tokens).length < 2 ^ 32)
    (rest : List Byte) :
    cell (writeTokens tokens ++ rest) 0 = .ok treeMagic ∧
    cell (writeTokens tokens ++ rest) 4 = .ok (writeTokens tokens).length ∧
    cell (writeTokens tokens ++ rest) 8 = .ok headerLength ∧
    cell (writeTokens tokens ++ rest) 12 = .ok (headerLength + (blockBytes tokens).length) := by
  have htotal := length_writeTokens tokens
  have hcount : (headerCells tokens).length = 10 := rfl
  rw [writeTokens_eq, List.append_assoc, ← writeTokens_eq, htotal]
  refine ⟨?_, ?_, ?_, ?_⟩
  · exact cell_flatMap (i := 0) (by omega) (show treeMagic < 2 ^ 32 by decide) _
  · exact cell_flatMap (i := 1) (by omega) (htotal ▸ hsize) _
  · exact cell_flatMap (i := 2) (by omega) (show headerLength < 2 ^ 32 by decide) _
  · refine cell_flatMap (i := 3) (by omega) ?_ _
    simp only [headerCells, List.getElem_cons_succ, List.getElem_cons_zero]
    omega

/-- The blob that is read from written tokens. -/
def writtenBlob (tokens : List Token) : Blob :=
  ⟨writeTokens tokens, headerLength, headerLength + (blockBytes tokens).length⟩

theorem Blob.ofBytes_of_cells {bytes : List Byte} {total block strings : Nat}
    (hmagic : cell bytes 0 = .ok treeMagic) (htotal : cell bytes 4 = .ok total)
    (hlength : total ≤ bytes.length) (hheader : headerLength ≤ total)
    (hblock : cell (bytes.take total) 8 = .ok block)
    (hstrings : cell (bytes.take total) 12 = .ok strings)
    (hin : block < total) (hin' : strings ≤ total) :
    Blob.ofBytes bytes = .ok ⟨bytes.take total, block, strings⟩ := by
  have hoffsets : ¬ (total ≤ block ∨ total < strings) := by omega
  simp only [Blob.ofBytes, bind, Except.bind, hmagic, htotal, hblock, hstrings, if_neg hoffsets,
    if_neg (Nat.not_lt.2 hlength), if_neg (Nat.not_lt.2 hheader), ne_eq, not_true_eq_false,
    if_false]
  rfl

/-- A blob that was written is accepted, whatever follows it. -/
theorem ofBytes_writeTokens {tokens : List Token} (hsize : (writeTokens tokens).length < 2 ^ 32)
    (rest : List Byte) : Blob.ofBytes (writeTokens tokens ++ rest) = .ok (writtenBlob tokens) := by
  obtain ⟨hmagic, htotal, -, -⟩ := cell_writeTokens hsize rest
  obtain ⟨-, -, hblock, hstrings⟩ := cell_writeTokens hsize []
  have hlength := length_writeTokens tokens
  have hfinish : 4 ≤ (blockBytes tokens).length := four_le_length_structureBytes tokens 0
  have htake : (writeTokens tokens ++ rest).take (writeTokens tokens).length = writeTokens tokens :=
    List.take_left
  have hmore : (writeTokens tokens).length ≤ (writeTokens tokens ++ rest).length := by
    rw [List.length_append]
    omega
  rw [List.append_nil] at hblock hstrings
  have hread := Blob.ofBytes_of_cells hmagic htotal hmore (by omega) (by rwa [htake])
    (by rwa [htake]) (by omega) (by omega)
  rwa [htake] at hread

/-- A written blob has the tokens that it was written from. -/
theorem tokens_writtenBlob {tokens : List Token} (hwritable : ∀ t ∈ tokens, t.Writable)
    (hsize : (writeTokens tokens).length < 2 ^ 32) :
    (writtenBlob tokens).tokens = ⟨tokens, .ok ()⟩ := by
  have hblock : (writtenBlob tokens).bytes = (headerCells tokens).flatMap cellBytes ++
      (structureBytes 0 (tokens ++ [.finish]) ++ stringsBytes tokens) := writeTokens_eq tokens
  have hstrings : (writtenBlob tokens).bytes =
      ((headerCells tokens).flatMap cellBytes ++ blockBytes tokens) ++
        (tokens.flatMap Token.stringBytes ++ []) := by
    rw [List.append_nil, List.append_assoc]
    exact writeTokens_eq tokens
  have hread := Blob.tokensFrom_of_eq hwritable hsize
    (by rw [length_headerCells]; decide) hblock hstrings
    (by rw [List.length_append, length_headerCells]; rfl)
  rwa [length_headerCells] at hread

end TaskKernel.DeviceTree
