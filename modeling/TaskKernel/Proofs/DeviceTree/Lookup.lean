/-
  TaskKernel.Proofs.DeviceTree.Lookup

  Looking up a property of a written devicetree. A path leads through its parts, however many
  slashes stand around them; a property is on a node that the parts lead to if they fit the names
  below the root one by one, each with or without its unit address. What is found is the first
  such property in document order, and the range of the boot archive is read off two of them.
-/
import Mathlib.Data.List.Forall2
import TaskKernel.Proofs.DeviceTree.DocumentOrder

namespace TaskKernel.DeviceTree

/-! ## Paths and their parts -/

/-- The path leads through the parts: none of them is empty, none has a slash in it, and there
    are slashes between them and as many more as one likes. -/
inductive LeadsThrough : List Char → List (List Char) → Prop where
  | nil : LeadsThrough [] []
  | slash {path : List Char} {parts : List (List Char)} (rest : LeadsThrough path parts) :
      LeadsThrough ('/' :: path) parts
  | last {part : List Char} (nonempty : part ≠ []) (plain : '/' ∉ part) :
      LeadsThrough part [part]
  | part {part path : List Char} {parts : List (List Char)} (nonempty : part ≠ [])
      (plain : '/' ∉ part) (rest : LeadsThrough path parts) :
      LeadsThrough (part ++ '/' :: path) (part :: parts)

theorem splitAtSlash_of_plain {part : List Char} (h : '/' ∉ part) : splitAtSlash part = [part] := by
  induction part with
  | nil => rfl
  | cons c part ih =>
      rw [List.mem_cons, not_or] at h
      rw [splitAtSlash, if_neg (Ne.symm h.1), ih h.2]

theorem splitAtSlash_append {part : List Char} (h : '/' ∉ part) (path : List Char) :
    splitAtSlash (part ++ '/' :: path) = part :: splitAtSlash path := by
  induction part with
  | nil => rfl
  | cons c part ih =>
      rw [List.mem_cons, not_or] at h
      rw [List.cons_append, splitAtSlash, if_neg (Ne.symm h.1), ih h.2]

/-- The nonempty pieces between slashes. -/
def partsOf (path : List Char) : List (List Char) :=
  (splitAtSlash path).filter fun part => !part.isEmpty

theorem partsOf_append {part : List Char} (hplain : '/' ∉ part) (hne : part ≠ [])
    (path : List Char) : partsOf (part ++ '/' :: path) = part :: partsOf path := by
  rw [partsOf, splitAtSlash_append hplain, List.filter_cons_of_pos (by simpa using hne), partsOf]

theorem LeadsThrough.partsOf_eq {path : List Char} {parts : List (List Char)}
    (h : LeadsThrough path parts) : partsOf path = parts := by
  induction h with
  | nil => rfl
  | slash rest ih => exact ih
  | last nonempty plain =>
      rw [partsOf, splitAtSlash_of_plain plain, List.filter_cons_of_pos (by simpa using nonempty),
        List.filter_nil]
  | part nonempty plain rest ih => rw [partsOf_append plain nonempty, ih]

/-- Every path leads through its parts. -/
theorem leadsThrough_partsOf (path : List Char) : LeadsThrough path (partsOf path) := by
  -- What follows the first slash is shorter.
  induction hn : path.length using Nat.strongRecOn generalizing path with
  | ind n ih =>
      by_cases hslash : '/' ∈ path
      · obtain ⟨part, rest, rfl, hplain⟩ := List.eq_append_cons_of_mem hslash
        have hshorter : rest.length < n := by
          rw [List.length_append, List.length_cons] at hn
          omega
        have hrest := ih rest.length hshorter rest rfl
        by_cases hempty : part = []
        · subst hempty
          exact .slash hrest
        · rw [partsOf_append hplain hempty]
          exact .part hempty hplain hrest
      · by_cases hempty : path = []
        · subst hempty
          exact .nil
        · rw [(LeadsThrough.last hempty hslash).partsOf_eq]
          exact .last hempty hslash

/-! ## Nodes that parts lead to -/

/-- The name fits a part of a path: it is the part, or the part with a unit address behind it. -/
def Fits (name : String) (part : List Char) : Prop :=
  name.toList = part ∨ '@' ∉ part ∧ ∃ address, name.toList = part ++ '@' :: address

theorem baseName_eq_iff {name : String} {part : List Char} : baseName name = part ↔
    '@' ∉ part ∧ (name.toList = part ∨ ∃ address, name.toList = part ++ '@' :: address) := by
  rw [baseName]
  constructor
  · rintro rfl
    refine ⟨fun hmem => by simpa using List.mem_takeWhile_imp hmem, ?_⟩
    -- What is dropped is empty or starts with the mark.
    have hsplit := List.takeWhile_append_dropWhile (p := (· != '@')) (l := name.toList)
    cases hrest : name.toList.dropWhile (· != '@') with
    | nil =>
        rw [hrest, List.append_nil] at hsplit
        exact Or.inl hsplit.symm
    | cons c address =>
        have hmark : c = '@' := by
          have hfirst := List.head_dropWhile_not (p := (· != '@')) (l := name.toList)
            (by rw [hrest]; exact List.cons_ne_nil c address)
          simpa [hrest] using hfirst
        rw [hrest, hmark] at hsplit
        exact Or.inr ⟨address, hsplit.symm⟩
  · rintro ⟨hplain, hname⟩
    have hall : ∀ c ∈ part, (c != '@') = true := by
      intro c hc
      rw [bne_iff_ne]
      rintro rfl
      exact hplain hc
    obtain hname | ⟨address, hname⟩ := hname
    · rw [hname, List.takeWhile_eq_self_iff.2 hall]
    · rw [hname, List.takeWhile_append_of_pos hall, List.takeWhile_cons_of_neg (by simp),
        List.append_nil]

theorem fitsPart_iff {name : String} {part : List Char} :
    fitsPart name part = true ↔ Fits name part := by
  rw [fitsPart, Bool.or_eq_true, beq_iff_eq, beq_iff_eq, baseName_eq_iff, Fits]
  constructor
  · rintro (⟨hplain, hname | haddress⟩ | hname)
    · exact Or.inl hname
    · exact Or.inr ⟨hplain, haddress⟩
    · exact Or.inl hname
  · rintro (hname | ⟨hplain, haddress⟩)
    · exact Or.inr hname
    · exact Or.inl ⟨hplain, Or.inr haddress⟩

namespace Property

/-- A property of the given name on a node that the parts lead to from the root, whatever the
    root is called. -/
def IsOn (p : Property) (parts : List (List Char)) (name : String) : Prop :=
  p.name = name ∧ ∃ root nodes, p.path = root :: nodes ∧ List.Forall₂ Fits nodes parts

theorem isAt_iff {p : Property} {parts : List (List Char)} {name : String} :
    p.isAt parts name = true ↔ p.IsOn parts name := by
  obtain ⟨path, pname, value⟩ := p
  rw [isAt, Bool.and_eq_true, Bool.and_eq_true, beq_iff_eq, beq_iff_eq, List.all_eq_true, IsOn,
    and_assoc]
  refine and_congr_right fun _ => ?_
  cases path with
  | nil => simp
  | cons root nodes =>
      have hlength : (root :: nodes).length = parts.length + 1 ↔ nodes.length = parts.length :=
        Nat.succ_inj
      have hfits : (∀ pair ∈ nodes.zip parts, fitsPart pair.1 pair.2 = true) ↔
          ∀ {node part}, (node, part) ∈ nodes.zip parts → Fits node part := by
        refine ⟨fun h node part hmem => fitsPart_iff.1 (h _ hmem), fun h pair hmem => ?_⟩
        exact fitsPart_iff.2 (h hmem)
      rw [List.tail_cons, hlength, hfits, ← List.forall₂_iff_zip]
      constructor
      · intro h
        exact ⟨root, nodes, rfl, h⟩
      · rintro ⟨_, _, hpath, h⟩
        cases hpath
        exact h

end Property

/-- The tree's first property of that name on a node that the parts lead to, in document order,
    has this value. -/
def Tree.Gives (t : Tree) (parts : List (List Char)) (name : String) (value : List Byte) : Prop :=
  ∃ before p after, t.properties = before ++ p :: after ∧ p.IsOn parts name ∧ p.value = value ∧
    ∀ q ∈ before, ¬ q.IsOn parts name

theorem Tree.gives_iff {t : Tree} {parts : List (List Char)} {name : String} {value : List Byte} :
    t.Gives parts name value ↔
      (t.properties.find? (·.isAt parts name)).map Property.value = some value := by
  simp only [Option.map_eq_some_iff, List.find?_eq_some_iff_append, Property.isAt_iff,
    Bool.not_eq_true', ← Bool.not_eq_true, Tree.Gives]
  constructor
  · rintro ⟨before, p, after, hsplit, hon, hvalue, hbefore⟩
    exact ⟨p, ⟨hon, before, after, hsplit, hbefore⟩, hvalue⟩
  · rintro ⟨p, ⟨hon, before, after, hsplit, hbefore⟩, hvalue⟩
    exact ⟨before, p, after, hsplit, hon, hvalue, hbefore⟩

/-! ## Looking up -/

/-- The visitor that keeps the value of the first property on the node and stops there. -/
def seek (parts : List (List Char)) (name : String) (found : Option (List Byte)) (p : Property) :
    Bool × Option (List Byte) :=
  if p.isAt parts name then (true, some p.value) else (false, found)

theorem Blob.property_eq (b : Blob) (node name : String) : b.property node name =
    match b.visit (seek (pathParts node) name) none with
    | (.error e, _) => .error e
    | (.ok (), found) => .ok found := rfl

theorem visitAll_seek (parts : List (List Char)) (name : String) (properties : List Property) :
    visitAll (seek parts name) none properties =
      ((properties.find? (·.isAt parts name)).isSome,
        (properties.find? (·.isAt parts name)).map Property.value) := by
  induction properties with
  | nil => rfl
  | cons p properties ih =>
      rw [visitAll, seek]
      by_cases hat : p.isAt parts name = true
      · rw [if_pos hat, List.find?_cons_of_pos (p := (Property.isAt · parts name)) hat]
        rfl
      · rw [if_neg hat, List.find?_cons_of_neg (p := (Property.isAt · parts name)) hat]
        exact ih

/-- A written tree that is not too deep is read, and a visitor is shown its properties. -/
theorem exists_blob_of_write {t : Tree} {tokens : List Token}
    (hnames : ∀ name ∈ t.names, '\x00' ∉ name.toList)
    (hnops : tokens.filter (· ≠ .nop) = t.tokens) (hsize : (writeTokens tokens).length < 2 ^ 32)
    (hdepth : t.depth ≤ maxDepth) (rest : List Byte) :
    ∃ b, Blob.ofBytes (writeTokens tokens ++ rest) = .ok b ∧
      ∀ {σ : Type} (visit : σ → Property → Bool × σ) (state : σ),
        b.visit visit state = (.ok (), (visitAll visit state t.properties).2) := by
  have htokens := tokens_writtenBlob (writable_of_filter_nop hnames hnops) hsize
  refine ⟨writtenBlob tokens, ofBytes_writeTokens hsize rest, fun visit state => ?_⟩
  rw [visit_of_tokens visit (t := t) (by rw [htokens, hnops]) (by rw [htokens]),
    Tree.shown_eq_properties hdepth, if_pos hdepth]
  cases visitAll visit state t.properties with
  | mk stop state' => cases stop <;> rfl

/-- Looking up in a blob that shows the properties of a tree. -/
theorem Blob.property_of_visit {b : Blob} {t : Tree}
    (hvisit : ∀ {σ : Type} (visit : σ → Property → Bool × σ) (state : σ),
      b.visit visit state = (.ok (), (visitAll visit state t.properties).2)) (node name : String) :
    b.property node name =
      .ok ((t.properties.find? (·.isAt (pathParts node) name)).map Property.value) := by
  rw [property_eq, hvisit, visitAll_seek]

/-! ## Numbers in one or two cells -/

/-- The value is a number, big-endian in four or in eight bytes. -/
def IsNumber (value : List Byte) (n : Nat) : Prop :=
  value = cellBytes n ∧ n < 2 ^ 32 ∨
    value = cellBytes (n / 2 ^ 32) ++ cellBytes (n % 2 ^ 32) ∧ n < 2 ^ 64

theorem bigEndian_append (high : List Byte) {low : List Byte} (h : low.length = 4) :
    bigEndian (high ++ low) = bigEndian high * 2 ^ 32 + bigEndian low := by
  obtain ⟨a, b, c, d, rfl⟩ := List.length_eq_four.1 h
  simp only [bigEndian, List.foldl_append, List.foldl_cons, List.foldl_nil]
  omega

/-- Four bytes are the cell of the number that they stand for. -/
theorem cellBytes_bigEndian {value : List Byte} (h : value.length = 4) :
    bigEndian value < 2 ^ 32 ∧ cellBytes (bigEndian value) = value := by
  obtain ⟨a, b, c, d, rfl⟩ := List.length_eq_four.1 h
  have ha := a.toNat_lt
  have hb := b.toNat_lt
  have hc := c.toNat_lt
  have hd := d.toNat_lt
  simp only [bigEndian, List.foldl_cons, List.foldl_nil]
  refine ⟨by omega, ?_⟩
  simp only [cellBytes, List.cons.injEq, and_true, ← UInt8.toNat_inj, UInt8.toNat_ofNat',
    Nat.shiftRight_eq_div_pow]
  omega

theorem readCells_eq_some_iff {value : List Byte} {w : Word} :
    readCells value = some w ↔ IsNumber value w.toNat := by
  have hread : readCells value = some w ↔
      (value.length = 4 ∨ value.length = 8) ∧ BitVec.ofNat 64 (bigEndian value) = w := by
    rw [readCells]
    split <;> simp [*]
  rw [hread]
  constructor
  · rintro ⟨hlength | hlength, rfl⟩
    · obtain ⟨hlt, hcell⟩ := cellBytes_bigEndian hlength
      have hsame : (BitVec.ofNat 64 (bigEndian value)).toNat = bigEndian value :=
        Nat.mod_eq_of_lt (by omega)
      exact Or.inl ⟨by rw [hsame, hcell], by omega⟩
    · have htake : (value.take 4).length = 4 := by simp [hlength]
      have hdrop : (value.drop 4).length = 4 := by simp [hlength]
      obtain ⟨hhigh, hcellHigh⟩ := cellBytes_bigEndian htake
      obtain ⟨hlow, hcellLow⟩ := cellBytes_bigEndian hdrop
      have happend := bigEndian_append (value.take 4) hdrop
      rw [List.take_append_drop] at happend
      have hsame : (BitVec.ofNat 64 (bigEndian value)).toNat = bigEndian value :=
        Nat.mod_eq_of_lt (by omega)
      have hdiv : bigEndian value / 2 ^ 32 = bigEndian (value.take 4) := by omega
      have hmod : bigEndian value % 2 ^ 32 = bigEndian (value.drop 4) := by omega
      refine Or.inr ⟨?_, by omega⟩
      rw [hsame, hdiv, hmod, hcellHigh, hcellLow, List.take_append_drop]
  · rintro (⟨rfl, hlt⟩ | ⟨rfl, hlt⟩)
    · refine ⟨Or.inl (length_cellBytes _), ?_⟩
      rw [bigEndian_cellBytes hlt, BitVec.ofNat_toNat, BitVec.setWidth_eq]
    · refine ⟨Or.inr (by simp), ?_⟩
      rw [bigEndian_append _ (length_cellBytes _), bigEndian_cellBytes (by omega),
        bigEndian_cellBytes (by omega)]
      have hsum : w.toNat / 2 ^ 32 * 2 ^ 32 + w.toNat % 2 ^ 32 = w.toNat := by omega
      rw [hsum, BitVec.ofNat_toNat, BitVec.setWidth_eq]

/-- The archive's range is told by the two numbers that are found, if they are in order. -/
theorem Blob.bootArchiveRange?_eq_some_iff {b : Blob} {start stop : PhysAddr} :
    b.bootArchiveRange? = some (start, stop) ↔ ∃ first last,
      b.property? "/chosen" "linux,initrd-start" = some first ∧
      b.property? "/chosen" "linux,initrd-end" = some last ∧
      IsNumber first start.toNat ∧ IsNumber last stop.toNat ∧ start.toNat < stop.toNat := by
  have hrange : b.bootArchiveRange? = some (start, stop) ↔
      (b.property? "/chosen" "linux,initrd-start").bind readCells = some start.raw ∧
      (b.property? "/chosen" "linux,initrd-end").bind readCells = some stop.raw ∧
      start.raw < stop.raw := by
    rw [bootArchiveRange?]
    split
    · next first last hfirst hlast =>
      rw [hfirst, hlast, Option.some_inj, Option.some_inj]
      constructor
      · intro h
        split at h
        · next hlt =>
          cases h
          exact ⟨rfl, rfl, hlt⟩
        · cases h
      · rintro ⟨rfl, rfl, hlt⟩
        rw [if_pos hlt]
    · next hmissing =>
      constructor
      · intro h
        cases h
      · rintro ⟨hfirst, hlast, -⟩
        exact (hmissing _ _ hfirst hlast).elim
  rw [hrange]
  simp only [Option.bind_eq_some_iff, readCells_eq_some_iff, Address.toNat, BitVec.lt_def]
  constructor
  · rintro ⟨⟨first, hfirst, hstart⟩, ⟨last, hlast, hstop⟩, hlt⟩
    exact ⟨first, last, hfirst, hlast, hstart, hstop, hlt⟩
  · rintro ⟨first, last, hfirst, hlast, hstart, hstop, hlt⟩
    exact ⟨⟨first, hfirst, hstart⟩, ⟨last, hlast, hstop⟩, hlt⟩

/-! ## Looking up in a written tree -/

/-- Every path leads through parts. In a written tree that is not too deep, with tokens without
    meaning among its own and any bytes after it, a lookup by a path gives the value of the tree's
    first property of the name on a node that the parts lead to, and nothing if there is none; it
    never fails. The boot archive has the range that the first two numbers under `chosen` name,
    if both are there and in order. -/
theorem lookup_finds_first (t : Tree) (tokens : List Token)
    (hnames : ∀ name ∈ t.names, '\x00' ∉ name.toList)
    (hnops : tokens.filter (· ≠ .nop) = t.tokens) (hsize : (writeTokens tokens).length < 2 ^ 32)
    (hdepth : t.depth ≤ maxDepth) (rest : List Byte) :
    (∀ node : String, ∃ parts, LeadsThrough node.toList parts) ∧
    ∃ b, Blob.ofBytes (writeTokens tokens ++ rest) = .ok b ∧
      (∀ (node : String) (parts : List (List Char)), LeadsThrough node.toList parts →
        ∀ name,
          (∀ value, b.property node name = .ok (some value) ↔ t.Gives parts name value) ∧
          (b.property node name = .ok none ↔ ∀ p ∈ t.properties, ¬ p.IsOn parts name)) ∧
      ∀ start stop, b.bootArchiveRange? = some (start, stop) ↔ ∃ first last,
        t.Gives ["chosen".toList] "linux,initrd-start" first ∧
        t.Gives ["chosen".toList] "linux,initrd-end" last ∧
        IsNumber first start.toNat ∧ IsNumber last stop.toNat ∧ start.toNat < stop.toNat := by
  obtain ⟨b, hread, hvisit⟩ := exists_blob_of_write hnames hnops hsize hdepth rest
  have hlookup := Blob.property_of_visit hvisit
  refine ⟨fun node => ⟨_, leadsThrough_partsOf node.toList⟩, b, hread, ?_, ?_⟩
  · intro node parts hparts name
    have hsame : pathParts node = parts := hparts.partsOf_eq
    rw [hlookup, hsame]
    constructor
    · intro value
      rw [Except.ok.injEq, Tree.gives_iff]
    · rw [Except.ok.injEq, Option.map_eq_none_iff, List.find?_eq_none]
      simp only [Property.isAt_iff]
  · intro start stop
    have hchosen : pathParts "/chosen" = ["chosen".toList] := by decide
    have hfound (name : String) (value : List Byte) :
        b.property? "/chosen" name = some value ↔ t.Gives ["chosen".toList] name value := by
      rw [Blob.property?, hlookup, hchosen, Tree.gives_iff]
    rw [Blob.bootArchiveRange?_eq_some_iff]
    simp only [hfound]

/-- Two nodes that both answer to `chosen`; in the first a property of the same name lies deeper
    and comes before the one that counts. -/
def siblings : Tree :=
  ⟨"board", .node "chosen@1"
    (.node "old" (.property "linux,initrd-start" [0, 0, 0, 8] .done)
      (.property "linux,initrd-start" [0, 0, 0, 16] .done))
    (.node "chosen" (.property "linux,initrd-start" [0, 0, 0, 24]
        (.property "linux,initrd-end" [0, 0, 0, 0, 0, 0, 0, 32] .done))
      (.property "model" [112, 0] .done))⟩

theorem lookup_finds_first_siblings : ∃ b, Blob.ofBytes (siblings.write ++ [7]) = .ok b ∧
    b.property "//chosen/" "linux,initrd-start" = .ok (some [0, 0, 0, 16]) ∧
    b.property "/chosen@1//old" "linux,initrd-start" = .ok (some [0, 0, 0, 8]) ∧
    b.property "/chosen" "model" = .ok none ∧
    b.bootArchiveRange? = some (⟨16⟩, ⟨32⟩) := by
  obtain ⟨-, b, hread, hlookup, hrange⟩ := lookup_finds_first siblings siblings.tokens
    (by decide +kernel) (by decide +kernel) (by decide +kernel) (by decide) [7]
  have hparts (node : String) := hlookup node _ (leadsThrough_partsOf node.toList)
  refine ⟨b, hread, ?_, ?_, ?_, ?_⟩
  · exact ((hparts _ _).1 _).2 (Tree.gives_iff.2 (by decide +kernel))
  · exact ((hparts _ _).1 _).2 (Tree.gives_iff.2 (by decide +kernel))
  · refine (hparts _ _).2.2 fun p hp => ?_
    rw [← Property.isAt_iff]
    revert p
    decide +kernel
  · exact (hrange _ _).2 ⟨[0, 0, 0, 16], [0, 0, 0, 0, 0, 0, 0, 32],
      Tree.gives_iff.2 (by decide +kernel), Tree.gives_iff.2 (by decide +kernel),
      Or.inl ⟨by decide, by decide⟩, Or.inr ⟨by decide, by decide⟩, by decide⟩

end TaskKernel.DeviceTree
