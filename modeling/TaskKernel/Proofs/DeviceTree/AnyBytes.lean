/-
  TaskKernel.Proofs.DeviceTree.AnyBytes

  Visiting a blob of any bytes. The visit is done once more with a look at whatever nothing is
  prepared for: a sum that does not fit a word, a position that is not there, and more token reads
  than there are cells. None of that ever happens, so this visit comes to an end and is the one
  that runs; and what the visitor is shown are names and values that stand in the blob.
-/
import TaskKernel.Proofs.Archive.Sites
import TaskKernel.Proofs.DeviceTree.Lookup

namespace TaskKernel.DeviceTree

open Archive (slice? slice?_eq_some_iff slice?_of_le slice?_of_lt)

/-! ## What stands in a blob -/

/-- Where the header's numbers lead, and that the size has 32 bits. -/
structure Blob.Bounded (b : Blob) : Prop where
  small : b.bytes.length < 2 ^ 32
  structure_lt : b.structureOffset < b.bytes.length
  strings_le : b.stringsOffset ≤ b.bytes.length

/-- The names in a token stand in the bytes with their terminators, and so does its value. -/
def Token.StandsIn (bytes : List Byte) : Token → Prop
  | beginNode name => encodeText name ++ [0] <:+: bytes
  | property name value => encodeText name ++ [0] <:+: bytes ∧ value <:+: bytes
  | _ => True

/-- The open nodes are not too many, and their names stand in the bytes. -/
structure OpenIn (bytes : List Byte) (path : List String) : Prop where
  shallow : path.length ≤ maxDepth
  names : ∀ name ∈ path, encodeText name ++ [0] <:+: bytes

/-- Everything about the property stands in the bytes. -/
structure Property.StandsIn (bytes : List Byte) (p : Property) : Prop where
  path : OpenIn bytes p.path
  name : encodeText p.name ++ [0] <:+: bytes
  value : p.value <:+: bytes

/-- What reading a token may come to: an error that is not about the header, or a token that
    stands in the bytes, with no gap before the next one that leads out of them. -/
def Blob.Answers (b : Blob) : Except TreeError ReadToken → Prop
  | .error e => ∀ magic, e ≠ .badMagic magic
  | .ok r => r.next < b.bytes.length + 4 ∧ r.token.StandsIn b.bytes

section

variable {bytes : List Byte} {offset : Nat}

theorem cell_lt {n : Nat} (h : cell bytes offset = .ok n) :
    offset + 4 ≤ bytes.length ∧ n < 2 ^ 32 := by
  rw [cell] at h
  split at h
  · next hin =>
    cases h
    have hlength : ((bytes.drop offset).take 4).length = 4 := by
      rw [List.length_take, List.length_drop]
      omega
    exact ⟨hin, (cellBytes_bigEndian hlength).1⟩
  · cases h

theorem cell_error {e : TreeError} (h : cell bytes offset = .error e) (magic : Nat) :
    e ≠ .badMagic magic := by
  rw [cell] at h
  split at h
  · cases h
  · cases h
    exact TreeError.noConfusion

theorem stringFrom_error {e : TreeError} (h : stringFrom bytes offset = .error e) (magic : Nat) :
    e ≠ .badMagic magic := by
  rw [stringFrom] at h
  split at h
  · cases h
    exact TreeError.noConfusion
  · dsimp only at h
    split at h
    · split at h
      · cases h
        exact TreeError.noConfusion
      · cases h
    · cases h
      exact TreeError.noConfusion

/-- A string that is read stands in the bytes with its terminator. -/
theorem stringFrom_stands {name : String} (h : stringFrom bytes offset = .ok name) :
    offset + (encodeText name).length + 1 ≤ bytes.length ∧ encodeText name ++ [0] <:+: bytes := by
  rw [stringFrom] at h
  split at h
  · cases h
  · next hin =>
    dsimp only at h
    split at h
    · next hzero =>
      split at h
      · cases h
      · next text hdecode =>
        cases h
        obtain ⟨before, rest, hsplit, hfirst⟩ :=
          List.eq_append_cons_of_mem (List.contains_iff_mem.1 hzero)
        have hname := encodeText_of_decodeText? hdecode
        rw [hsplit, untilNul_append_zero hfirst] at hname
        have hbytes : bytes = bytes.take offset ++ (encodeText name ++ [0]) ++ rest := by
          rw [hname, List.append_assoc, List.append_assoc, List.singleton_append, ← hsplit,
            List.take_append_drop]
        refine ⟨?_, ⟨bytes.take offset, rest, hbytes.symm⟩⟩
        have hlength := congrArg List.length hsplit
        rw [List.length_drop, List.length_append, List.length_cons, ← hname] at hlength
        omega
    · cases h

end

namespace Blob

variable {b : Blob} {offset : Nat}

theorem readBegin_answers : b.Answers (b.readBegin offset) := by
  rw [readBegin]
  split
  · next e hname => exact stringFrom_error hname
  · next name hname =>
    obtain ⟨hin, hstands⟩ := stringFrom_stands hname
    have hnext := align4_lt (offset + (encodeText name).length + 1)
    refine ⟨?_, hstands⟩
    show align4 (offset + (encodeText name).length + 1) < b.bytes.length + 4
    omega

theorem readProperty_answers : b.Answers (b.readProperty offset) := by
  rw [readProperty]
  split
  · next e hcell => exact cell_error hcell
  · next e hcell _ => exact cell_error hcell
  · next length nameOffset _ _ =>
    dsimp only
    split
    · exact fun magic => TreeError.noConfusion
    · next hin =>
      split
      · next e hname => exact stringFrom_error hname
      · next name hname =>
        have hnext := align4_lt (offset + 8 + length)
        have hvalue : (b.bytes.drop (offset + 8)).take length <:+: b.bytes :=
          (List.take_prefix _ _).isInfix.trans (List.drop_suffix _ _).isInfix
        refine ⟨?_, (stringFrom_stands hname).2, hvalue⟩
        show align4 (offset + 8 + length) < b.bytes.length + 4
        omega

theorem readToken_answers (b : Blob) (offset : Nat) : b.Answers (b.readToken offset) := by
  have hnext {n : Nat} (hcell : cell b.bytes offset = .ok n) : offset + 4 < b.bytes.length + 4 := by
    have hin := (cell_lt hcell).1
    omega
  rw [readToken]
  split
  · next e hcell => exact cell_error hcell
  · exact readBegin_answers
  · next hcell => exact ⟨hnext hcell, trivial⟩
  · exact readProperty_answers
  · next hcell => exact ⟨hnext hcell, trivial⟩
  · next hcell => exact ⟨hnext hcell, trivial⟩
  · exact fun magic => TreeError.noConfusion

end Blob

/-! ## Reading with a look at every step -/

namespace Checked

/-- A sum of offsets and lengths, if it fits a word. -/
def sum? (m n : Nat) : Option Nat := if m + n < 2 ^ 64 then some (m + n) else none

/-- The least multiple of four that is not below `n`, if the sum on the way to it fits a word. -/
def align? (n : Nat) : Option Nat := (sum? n 3).map fun m => m / 4 * 4

/-- The number in four bytes, each of them asked for by its position. -/
def bigEndian? (piece : List Byte) : Option Nat := do
  let a ← piece[0]?
  let b ← piece[1]?
  let c ← piece[2]?
  let d ← piece[3]?
  return bigEndian [a, b, c, d]

def cell? (bytes : List Byte) (offset : Nat) : Option (Except TreeError Nat) := do
  let _stop ← sum? offset 4
  match slice? bytes offset 4 with
  | none => return .error (.truncated offset)
  | some piece => return .ok (← bigEndian? piece)

/-- The terminated string at `offset`; its bytes are cut out once the terminator is found. -/
def string? (bytes : List Byte) (offset : Nat) : Option (Except TreeError String) :=
  if bytes.length < offset then some (.error (.truncated offset))
  else
    let rest := bytes.drop offset
    match rest.findIdx? (· == 0) with
    | none => some (.error (.badString offset))
    | some length => do
      let text ← slice? rest 0 length
      match decodeText? text with
      | none => return .error (.badString offset)
      | some name => return .ok name

def begin? (b : Blob) (offset : Nat) : Option (Except TreeError ReadToken) := do
  match ← string? b.bytes offset with
  | .error e => return .error e
  | .ok name =>
    let stop ← sum? offset (encodeText name).length
    let stop ← sum? stop 1
    return .ok ⟨.beginNode name, ← align? stop⟩

def property? (b : Blob) (offset : Nat) : Option (Except TreeError ReadToken) := do
  match ← cell? b.bytes offset with
  | .error e => return .error e
  | .ok length =>
    match ← cell? b.bytes (← sum? offset 4) with
    | .error e => return .error e
    | .ok nameOffset =>
      let start ← sum? offset 8
      let stop ← sum? start length
      match slice? b.bytes start length with
      | none => return .error (.truncated start)
      | some value =>
        match ← string? b.bytes (← sum? b.stringsOffset nameOffset) with
        | .error e => return .error e
        | .ok name => return .ok ⟨.property name value, ← align? stop⟩

def token? (b : Blob) (offset : Nat) : Option (Except TreeError ReadToken) := do
  match ← cell? b.bytes offset with
  | .error e => return .error e
  | .ok number =>
    let next ← sum? offset 4
    match number with
    | 1 => begin? b next
    | 2 => return .ok ⟨.endNode, next⟩
    | 3 => property? b next
    | 4 => return .ok ⟨.nop, next⟩
    | 9 => return .ok ⟨.finish, next⟩
    | number => return .error (.badToken (next - 4) number)

/-- How a visit ended, and what the visitor was called with. -/
structure Walk (σ : Type) where
  result : Except TreeError Unit
  state : σ
  calls : List Property

section

variable {σ : Type}

/-- Visits from the token at `offset` on, where the nodes of `path` are open, with at most
    `reads` token reads. The visitor may run into something that nothing is prepared for too. -/
def walkFrom (b : Blob) (visit : σ → Property → Option (Bool × σ)) :
    (reads offset : Nat) → (path : List String) → (state : σ) → Option (Walk σ)
  | 0, _, _, _ => none
  | reads + 1, offset, path, state => do
    match ← token? b offset with
    | .error e => return ⟨.error e, state, []⟩
    | .ok ⟨.beginNode name, next⟩ =>
      if path.length < maxDepth then walkFrom b visit reads next (path ++ [name]) state
      else return ⟨.error .tooDeep, state, []⟩
    | .ok ⟨.endNode, next⟩ => walkFrom b visit reads next path.dropLast state
    | .ok ⟨.property name value, next⟩ =>
      match ← visit state ⟨path, name, value⟩ with
      | (true, state) => return ⟨.ok (), state, [⟨path, name, value⟩]⟩
      | (false, state) =>
        let walk ← walkFrom b visit reads next path state
        return { walk with calls := ⟨path, name, value⟩ :: walk.calls }
    | .ok ⟨.nop, next⟩ => walkFrom b visit reads next path state
    | .ok ⟨.finish, _⟩ => return ⟨.ok (), state, []⟩

/-- Visits the blob with one token read for each of its cells and one more. -/
def walk (b : Blob) (visit : σ → Property → Option (Bool × σ)) (state : σ) : Option (Walk σ) :=
  walkFrom b visit (b.totalSize / 4 + 1) b.structureOffset [] state

end

/-! ## Queries with a look at every step -/

/-- The names below the root, if there is a root. -/
def belowRoot? (path : List String) : Option (List String) :=
  if 1 ≤ path.length then some (path.drop 1) else none

/-- Compares a property with what is asked for; the root is taken off a path only once its
    length was found to be right. -/
def isAt? (p : Property) (parts : List (List Char)) (name : String) : Option Bool :=
  if p.name ≠ name then some false
  else if p.path.length ≠ parts.length + 1 then some false
  else do
    let nodes ← belowRoot? p.path
    return (nodes.zip parts).all fun pair => fitsPart pair.1 pair.2

def seek? (parts : List (List Char)) (name : String) (found : Option (List Byte)) (p : Property) :
    Option (Bool × Option (List Byte)) := do
  return if ← isAt? p parts name then (true, some p.value) else (false, found)

def lookup? (b : Blob) (node name : String) : Option (Except TreeError (Option (List Byte))) := do
  let walk ← walk b (seek? (pathParts node) name) none
  return walk.result.map fun () => walk.state

def readCells? (value : List Byte) : Option (Option Word) :=
  if value.length = 4 then (bigEndian? value).map fun n => some (BitVec.ofNat 64 n)
  -- Eight bytes are copied to a place for eight.
  else some (readCells value)

def model? (b : Blob) : Option (Option String) := do
  match ← lookup? b "/" "model" with
  | .ok (some value) => return decodeText? (untilNul value)
  | _ => return none

/-- A number under `chosen`. -/
def chosenNumber? (b : Blob) (name : String) : Option (Option Word) := do
  match ← lookup? b "/chosen" name with
  | .ok (some value) => readCells? value
  | _ => return none

def bootArchiveRange? (b : Blob) : Option (Option (PhysAddr × PhysAddr)) := do
  match ← chosenNumber? b "linux,initrd-start", ← chosenNumber? b "linux,initrd-end" with
  | some start, some stop => return if start < stop then some (⟨start⟩, ⟨stop⟩) else none
  | _, _ => return none

/-! ## Nothing is missed -/

section

variable {bytes : List Byte} {offset : Nat}

theorem sum?_of_lt {m n : Nat} (h : m + n < 2 ^ 64) : sum? m n = some (m + n) := if_pos h

theorem align?_of_lt {n : Nat} (h : n + 3 < 2 ^ 64) : align? n = some (align4 n) := by
  rw [align?, sum?_of_lt h]
  rfl

theorem bigEndian?_of_length {piece : List Byte} (h : piece.length = 4) :
    bigEndian? piece = some (bigEndian piece) := by
  obtain ⟨a, b, c, d, rfl⟩ := List.length_eq_four.1 h
  rfl

theorem cell?_eq (h : offset + 4 < 2 ^ 64) : cell? bytes offset = some (cell bytes offset) := by
  rw [cell?, sum?_of_lt h, cell]
  by_cases hin : offset + 4 ≤ bytes.length
  · have hlength : ((bytes.drop offset).take 4).length = 4 := by
      rw [List.length_take, List.length_drop]
      omega
    simp [slice?_of_le hin, bigEndian?_of_length hlength, if_pos hin]
  · simp [slice?_of_lt (Nat.lt_of_not_le hin), if_neg hin]

theorem untilNul_eq_take (bytes : List Byte) :
    untilNul bytes = bytes.take (bytes.findIdx (· == 0)) := by
  have hsame : (fun b : Byte => !(b != 0)) = (· == 0) := by
    funext b
    rw [bne, Bool.not_not]
  rw [untilNul, List.takeWhile_eq_take_findIdx_not, hsame]

theorem string?_eq (bytes : List Byte) (offset : Nat) :
    string? bytes offset = some (stringFrom bytes offset) := by
  have hterminated (rest : List Byte) :
      rest.contains 0 = true ↔ rest.findIdx (· == 0) < rest.length := by
    rw [List.findIdx_lt_length, List.contains_iff_mem]
    simp
  rw [string?, stringFrom]
  split
  · rfl
  · dsimp only
    split
    · next hmissing =>
      rw [List.findIdx?_eq_none_iff_findIdx_eq] at hmissing
      have hzero := (hterminated (bytes.drop offset)).not.2 (by omega)
      rw [if_neg hzero]
    · next length hfound =>
      obtain ⟨hlt, rfl⟩ := List.findIdx?_eq_some_iff_findIdx_eq.1 hfound
      have hpiece : slice? (bytes.drop offset) 0 ((bytes.drop offset).findIdx (· == 0)) =
          some (untilNul (bytes.drop offset)) := by
        rw [slice?_of_le (by omega), List.drop_zero, untilNul_eq_take]
      rw [if_pos ((hterminated _).2 hlt), hpiece, Option.bind_eq_bind, Option.bind_some]
      split <;> simp [*]

end

end Checked

/-! ## The running reader is the one that looks -/

namespace Checked

variable {b : Blob} {offset : Nat}

theorem begin?_eq (hbounded : b.Bounded) : begin? b offset = some (b.readBegin offset) := by
  rw [begin?, string?_eq, Blob.readBegin]
  cases hname : stringFrom b.bytes offset with
  | error e => rfl
  | ok name =>
    have hin := (stringFrom_stands hname).1
    have hsmall := hbounded.small
    have hname : sum? offset (encodeText name).length = some (offset + (encodeText name).length) :=
      sum?_of_lt (by omega)
    have hstop : sum? (offset + (encodeText name).length) 1 =
        some (offset + (encodeText name).length + 1) := sum?_of_lt (by omega)
    have hnext : align? (offset + (encodeText name).length + 1) =
        some (align4 (offset + (encodeText name).length + 1)) := align?_of_lt (by omega)
    simp only [Option.bind_eq_bind, Option.bind_some, hname, hstop, hnext]
    rfl

theorem property?_eq (hbounded : b.Bounded) (hoffset : offset ≤ b.bytes.length) :
    property? b offset = some (b.readProperty offset) := by
  have hsmall := hbounded.small
  have hstrings := hbounded.strings_le
  rw [property?, cell?_eq (by omega), Blob.readProperty]
  cases hlength : cell b.bytes offset with
  | error e => rfl
  | ok length =>
    have hlength32 := (cell_lt hlength).2
    have hsecond : sum? offset 4 = some (offset + 4) := sum?_of_lt (by omega)
    have hcell : cell? b.bytes (offset + 4) = some (cell b.bytes (offset + 4)) :=
      cell?_eq (by omega)
    simp only [Option.bind_eq_bind, Option.bind_some, hsecond, hcell]
    cases hplace : cell b.bytes (offset + 4) with
    | error e => rfl
    | ok nameOffset =>
      have hplace32 := (cell_lt hplace).2
      have hstart : sum? offset 8 = some (offset + 8) := sum?_of_lt (by omega)
      have hstop : sum? (offset + 8) length = some (offset + 8 + length) := sum?_of_lt (by omega)
      have hname : sum? b.stringsOffset nameOffset = some (b.stringsOffset + nameOffset) :=
        sum?_of_lt (by omega)
      have hnext : align? (offset + 8 + length) = some (align4 (offset + 8 + length)) :=
        align?_of_lt (by omega)
      simp only [Option.bind_some, hstart, hstop]
      by_cases hin : offset + 8 + length ≤ b.bytes.length
      · rw [slice?_of_le hin, if_neg (Nat.not_lt.2 hin)]
        simp only [hname, string?_eq, Option.bind_some, hnext]
        cases stringFrom b.bytes (b.stringsOffset + nameOffset) with
        | error e => rfl
        | ok name => rfl
      · rw [slice?_of_lt (Nat.lt_of_not_le hin), if_pos (Nat.lt_of_not_le hin)]
        rfl

theorem token?_eq (hbounded : b.Bounded) (hoffset : offset < b.bytes.length + 4) :
    token? b offset = some (b.readToken offset) := by
  have hsmall := hbounded.small
  rw [token?, cell?_eq (by omega), Blob.readToken]
  cases hcell : cell b.bytes offset with
  | error e => rfl
  | ok number =>
    have hin := (cell_lt hcell).1
    have hnext : sum? offset 4 = some (offset + 4) := sum?_of_lt (by omega)
    simp only [Option.bind_eq_bind, Option.bind_some, hnext, begin?_eq hbounded,
      property?_eq hbounded hin, Nat.add_sub_cancel]
    split
    · rfl
    · rfl
    · rfl
    · rfl
    · rfl
    · simp

/-- The visit comes to this, never to an error about the header, and the visitor is called with
    nothing but what stands in the bytes. -/
structure Walk.ComesTo {σ : Type} (walk : Walk σ) (bytes : List Byte)
    (outcome : Except TreeError Unit × σ) : Prop where
  outcome : (walk.result, walk.state) = outcome
  calls : ∀ p ∈ walk.calls, p.StandsIn bytes
  errors : ∀ magic, walk.result ≠ .error (.badMagic magic)

section

variable {σ : Type} {visit : σ → Property → Bool × σ} {visit? : σ → Property → Option (Bool × σ)}

/-- A visit that ends before the visitor is called. -/
theorem Walk.comesTo_end {bytes : List Byte} {result : Except TreeError Unit} {state : σ}
    (h : ∀ magic, result ≠ .error (.badMagic magic)) :
    Walk.ComesTo ⟨result, state, []⟩ bytes (result, state) where
  outcome := rfl
  calls := by
    intro p hp
    cases hp
  errors := h

theorem walkFrom_of_error (hbounded : b.Bounded) {reads : Nat} {path : List String} {state : σ}
    (hoffset : offset < b.bytes.length + 4) {e : TreeError} (hread : b.readToken offset = .error e) :
    ∃ walk, walkFrom b visit? (reads + 1) offset path state = some walk ∧
      walk.ComesTo b.bytes
        (visitTokens visit (b.tokensFrom offset).ending path state (b.tokensFrom offset).tokens) := by
  have hanswers := b.readToken_answers offset
  rw [hread] at hanswers
  rw [walkFrom, token?_eq hbounded hoffset, hread, Blob.tokensFrom_of_error hread]
  refine ⟨_, rfl, Walk.comesTo_end ?_⟩
  intro magic h
  exact hanswers magic (Except.error.inj h)

/-- From every offset the reads that are left suffice, if there is one for each cell from there
    on and one more. -/
theorem walkFrom_comesTo (hvisit : ∀ state p, visit? state p = some (visit state p))
    (hbounded : b.Bounded) {reads : Nat} {path : List String} {state : σ}
    (hoffset : offset < b.bytes.length + 4) (hreads : b.bytes.length < offset + 4 * reads + 4)
    (hpath : OpenIn b.bytes path) :
    ∃ walk, walkFrom b visit? (reads + 1) offset path state = some walk ∧
      walk.ComesTo b.bytes
        (visitTokens visit (b.tokensFrom offset).ending path state (b.tokensFrom offset).tokens) := by
  induction reads generalizing offset path state with
  | zero =>
    cases hread : b.readToken offset with
    | error e => exact walkFrom_of_error hbounded hoffset hread
    | ok r =>
      have hin := (Blob.next_of_readToken hread).1
      omega
  | succ reads ih =>
    cases hread : b.readToken offset with
    | error e => exact walkFrom_of_error hbounded hoffset hread
    | ok r =>
      obtain ⟨token, next⟩ := r
      obtain ⟨hin, hnext⟩ := Blob.next_of_readToken hread
      have hanswers := b.readToken_answers offset
      rw [hread] at hanswers
      obtain ⟨hlt, hstands⟩ := hanswers
      dsimp only at hnext hlt hstands
      have hrest : b.bytes.length < next + 4 * reads + 4 := by omega
      rw [walkFrom, token?_eq hbounded hoffset, hread]
      simp only [Option.bind_eq_bind, Option.bind_some]
      cases token with
      | beginNode name =>
        rw [Blob.tokensFrom_of_token hread Token.noConfusion]
        simp only [visitTokens]
        by_cases hshallow : path.length < maxDepth
        · rw [if_pos hshallow, if_pos hshallow]
          refine ih hlt hrest ⟨?_, ?_⟩
          · rw [List.length_append]
            exact hshallow
          · rw [List.forall_mem_append, List.forall_mem_singleton]
            exact ⟨hpath.names, hstands⟩
        · rw [if_neg hshallow, if_neg hshallow]
          refine ⟨_, rfl, Walk.comesTo_end ?_⟩
          intro magic h
          cases h
      | endNode =>
        rw [Blob.tokensFrom_of_token hread Token.noConfusion]
        refine ih hlt hrest ⟨?_, fun name hname => hpath.names name (List.dropLast_subset path hname)⟩
        rw [List.length_dropLast]
        exact Nat.le_trans (Nat.sub_le _ _) hpath.shallow
      | property name value =>
        rw [Blob.tokensFrom_of_token hread Token.noConfusion]
        have hshown : Property.StandsIn b.bytes ⟨path, name, value⟩ := ⟨hpath, hstands.1, hstands.2⟩
        simp only [visitTokens, hvisit, Option.bind_some]
        cases hcall : visit state ⟨path, name, value⟩ with
        | mk stop state' =>
          cases stop with
          | true =>
            refine ⟨_, rfl, rfl, List.forall_mem_singleton.2 hshown, ?_⟩
            intro magic h
            cases h
          | false =>
            obtain ⟨walk, hwalk, hcomes⟩ := @ih next path state' hlt hrest hpath
            simp only [hwalk, Option.bind_some]
            refine ⟨_, rfl, hcomes.outcome, ?_, hcomes.errors⟩
            exact List.forall_mem_cons.2 ⟨hshown, hcomes.calls⟩
      | nop =>
        rw [Blob.tokensFrom_of_token hread Token.noConfusion]
        exact ih hlt hrest hpath
      | finish =>
        rw [Blob.tokensFrom_of_finish hread]
        refine ⟨_, rfl, Walk.comesTo_end ?_⟩
        intro magic h
        cases h

theorem walk_comesTo (hvisit : ∀ state p, visit? state p = some (visit state p))
    (hbounded : b.Bounded) (state : σ) :
    ∃ w, walk b visit? state = some w ∧ w.ComesTo b.bytes (b.visit visit state) := by
  have hstart := hbounded.structure_lt
  have hreads : b.bytes.length < b.structureOffset + 4 * (b.totalSize / 4) + 4 := by
    rw [Blob.totalSize]
    omega
  have hpath : OpenIn b.bytes [] := ⟨Nat.zero_le _, fun _ hname => absurd hname List.not_mem_nil⟩
  exact walkFrom_comesTo hvisit hbounded (by omega) hreads hpath

end

/-! ## Queries -/

/-- A path is long enough to lose its root where that is tried. -/
theorem isAt?_eq (p : Property) (parts : List (List Char)) (name : String) :
    isAt? p parts name = some (p.isAt parts name) := by
  rw [isAt?, Property.isAt]
  by_cases hname : p.name = name
  · rw [if_neg (not_not.2 hname), beq_iff_eq.2 hname, Bool.true_and]
    by_cases hlength : p.path.length = parts.length + 1
    · have hroot : 1 ≤ p.path.length := by omega
      rw [if_neg (not_not.2 hlength), beq_iff_eq.2 hlength, Bool.true_and, belowRoot?,
        if_pos hroot, List.drop_one]
      rfl
    · rw [if_pos hlength, beq_eq_false_iff_ne.2 hlength, Bool.false_and]
  · rw [if_pos hname, beq_eq_false_iff_ne.2 hname, Bool.false_and, Bool.false_and]

theorem lookup?_eq (hbounded : b.Bounded) (node name : String) :
    lookup? b node name = some (b.property node name) := by
  have hvisit (found : Option (List Byte)) (p : Property) :
      seek? (pathParts node) name found p = some (seek (pathParts node) name found p) := by
    rw [seek?, isAt?_eq]
    rfl
  obtain ⟨w, hwalk, hcomes⟩ := walk_comesTo hvisit hbounded none
  rw [lookup?, hwalk, Blob.property_eq, ← hcomes.outcome]
  obtain ⟨result, found, calls⟩ := w
  cases result <;> rfl

theorem readCells?_eq (value : List Byte) : readCells? value = some (readCells value) := by
  rw [readCells?]
  by_cases hlength : value.length = 4
  · rw [if_pos hlength, bigEndian?_of_length hlength, readCells, if_pos (Or.inl hlength)]
    rfl
  · rw [if_neg hlength]

theorem model?_eq (hbounded : b.Bounded) : model? b = some b.model? := by
  rw [model?, lookup?_eq hbounded, Blob.model?, Blob.property?]
  simp only [Option.bind_eq_bind, Option.bind_some]
  cases b.property "/" "model" with
  | error e => rfl
  | ok found => cases found <;> rfl

theorem chosenNumber?_eq (hbounded : b.Bounded) (name : String) :
    chosenNumber? b name = some ((b.property? "/chosen" name).bind readCells) := by
  rw [chosenNumber?, lookup?_eq hbounded, Blob.property?]
  simp only [Option.bind_eq_bind, Option.bind_some]
  cases b.property "/chosen" name with
  | error e => rfl
  | ok found =>
    cases found with
    | none => rfl
    | some value => exact readCells?_eq value

theorem bootArchiveRange?_eq (hbounded : b.Bounded) :
    bootArchiveRange? b = some b.bootArchiveRange? := by
  rw [bootArchiveRange?, chosenNumber?_eq hbounded, chosenNumber?_eq hbounded,
    Blob.bootArchiveRange?]
  generalize (b.property? "/chosen" "linux,initrd-start").bind readCells = start
  generalize (b.property? "/chosen" "linux,initrd-end").bind readCells = stop
  cases start with
  | none => rfl
  | some start =>
    cases stop with
    | none => rfl
    | some stop => rfl

end Checked

/-! ## Blobs of any bytes -/

/-- What the header of an accepted blob says. -/
theorem Blob.bounded_of_ofBytes {bytes : List Byte} {b : Blob} (accepted : ofBytes bytes = .ok b) :
    b.Bounded ∧ cell bytes 4 = .ok b.totalSize ∧ b.bytes = bytes.take b.totalSize := by
  simp only [ofBytes, bind, Except.bind, throw, throwThe, MonadExceptOf.throw, pure,
    Except.pure] at accepted
  -- Every check but the last way out ends in an error.
  split at accepted
  · cases accepted
  split at accepted
  · cases accepted
  split at accepted
  · cases accepted
  next total htotal =>
    split at accepted
    · cases accepted
    next hlong =>
      split at accepted
      · cases accepted
      split at accepted
      · cases accepted
      split at accepted
      · cases accepted
      split at accepted
      · cases accepted
      next hoffsets =>
        cases accepted
        have hsmall := (cell_lt htotal).2
        have hlength : (bytes.take total).length = total := by
          rw [List.length_take]
          omega
        obtain ⟨hblock, hstrings⟩ := not_or.1 hoffsets
        rw [totalSize]
        dsimp only
        rw [hlength]
        refine ⟨⟨?_, ?_, ?_⟩, htotal, rfl⟩
        · rwa [hlength]
        · rw [hlength]
          exact Nat.lt_of_not_le hblock
        · rw [hlength]
          exact Nat.le_of_not_lt hstrings

/-- A blob of any bytes is visited without a look outside of it, a sum that does not fit a word or
    more token reads than it has cells and one more, whatever the visitor does; so are the queries
    answered, also where properties have no node around them. The visit fails, if at all, with an
    error that is not about the header. The visitor is called with at most sixteen open nodes and
    with names and values that stand in the first bytes of the input, as many as its total size. -/
theorem any_blob_visited_safely {bytes : List Byte} {b : Blob}
    (accepted : Blob.ofBytes bytes = .ok b) :
    cell bytes 4 = .ok b.totalSize ∧ b.totalSize ≤ bytes.length ∧
    (∀ {σ : Type} (visit : σ → Property → Bool × σ) (state : σ),
      ∃ w, Checked.walkFrom b (fun state p => some (visit state p)) (b.totalSize / 4 + 1)
          b.structureOffset [] state = some w ∧
        (w.result, w.state) = b.visit visit state ∧
        (∀ p ∈ w.calls, p.path.length ≤ maxDepth ∧ p.StandsIn (bytes.take b.totalSize)) ∧
        ∀ magic, w.result ≠ .error (.badMagic magic)) ∧
    (∀ node name, Checked.lookup? b node name = some (b.property node name)) ∧
    Checked.model? b = some b.model? ∧
    Checked.bootArchiveRange? b = some b.bootArchiveRange? := by
  obtain ⟨hbounded, htotal, hbytes⟩ := Blob.bounded_of_ofBytes accepted
  have hlength := congrArg List.length hbytes
  rw [List.length_take, ← Blob.totalSize] at hlength
  refine ⟨htotal, by omega, ?_, Checked.lookup?_eq hbounded, Checked.model?_eq hbounded,
    Checked.bootArchiveRange?_eq hbounded⟩
  intro σ visit state
  obtain ⟨w, hwalk, hcomes⟩ := Checked.walk_comesTo (fun _ _ => rfl) hbounded state
  refine ⟨w, hwalk, hcomes.outcome, ?_, hcomes.errors⟩
  intro p hp
  have hstands := hcomes.calls p hp
  rw [← hbytes]
  exact ⟨hstands.path.shallow, hstands⟩

/-- A node is closed that was never opened, and a property has no node around it. -/
def strayTokens : List Token := [.endNode, .property "reg" [7]]

theorem any_blob_visited_safely_stray : ∃ b, Blob.ofBytes (writeTokens strayTokens) = .ok b ∧
    Checked.lookup? b "/" "reg" = some (.ok none) ∧
    ∃ w, Checked.walkFrom b (fun seen p => some (record none seen p)) (b.totalSize / 4 + 1)
        b.structureOffset [] [] = some w ∧
      w.state = [⟨[], "reg", [7]⟩] ∧
      ∀ p ∈ w.calls, p.StandsIn ((writeTokens strayTokens).take b.totalSize) := by
  have hread := ofBytes_writeTokens (show (writeTokens strayTokens).length < 2 ^ 32 by decide +kernel) []
  rw [List.append_nil] at hread
  have htokens : (writtenBlob strayTokens).tokens = ⟨strayTokens, .ok ()⟩ :=
    tokens_writtenBlob (by decide) (by decide +kernel)
  obtain ⟨-, -, hvisits, hlookup, -⟩ := any_blob_visited_safely hread
  obtain ⟨w, hwalk, houtcome, hcalls, -⟩ := hvisits (record none) []
  refine ⟨_, hread, ?_, w, hwalk, ?_, fun p hp => (hcalls p hp).2⟩
  · rw [hlookup, Blob.property_eq, Blob.visit, htokens]
    decide +kernel
  · rw [Blob.visit, htokens] at houtcome
    exact congrArg Prod.snd houtcome

end TaskKernel.DeviceTree
