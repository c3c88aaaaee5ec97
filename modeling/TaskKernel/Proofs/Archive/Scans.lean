/-
  TaskKernel.Proofs.Archive.Scans

  Reading an archive of any bytes from one member to the next. A scan lists the members with
  the sites where they stand and tells how it ends, at a trailer or at what cannot be read;
  there is one for all bytes, and what the reader puts out, finds and loads is told by it.
-/
import Mathlib.Data.Set.Lattice
import Mathlib.Order.CompletePartialOrder
import TaskKernel.Proofs.Archive.RoundTrip
import TaskKernel.Proofs.Archive.Sites

namespace TaskKernel.Archive

/-! ## Scans -/

/-- How a scan comes to its end. -/
inductive Ending where
  | trailer (s : Site)
  | broken (e : ArchiveError)

/-- The error that takes the place of the next member. -/
def Ending.error? : Ending → Option ArchiveError
  | trailer _ => none
  | broken e => some e

/-- The site of the trailer, if the scan has come to it. -/
def Ending.site? : Ending → Option Site
  | trailer s => some s
  | broken _ => none

/-- `Scan bytes offset found ending` says that the members from `offset` on are those of
    `found`, in this order, and that `ending` stops the reading behind them. -/
inductive Scan (bytes : List Byte) : Nat → List (Site × Member) → Ending → Prop
  | trailer {s : Site} {m : Member} (holds : s.Holds bytes m) (name : m.name = trailerName) :
      Scan bytes s.offset [] (.trailer s)
  | broken {offset : Nat} {e : ArchiveError}
      (failed : parse offset (bytes.drop offset) = .error e) : Scan bytes offset [] (.broken e)
  | member {s : Site} {m : Member} {found : List (Site × Member)} {ending : Ending}
      (holds : s.Holds bytes m) (name : m.name ≠ trailerName)
      (rest : Scan bytes s.stop found ending) : Scan bytes s.offset ((s, m) :: found) ending

/-- Every reading is a scan: each member ends behind its header, inside the archive. -/
theorem exists_scan (bytes : List Byte) (offset : Nat) :
    ∃ found ending, Scan bytes offset found ending := by
  induction hleft : bytes.length - offset using Nat.strong_induction_on generalizing offset with
  | h left ih =>
    cases hparse : parse offset (bytes.drop offset) with
    | error e => exact ⟨[], .broken e, .broken hparse⟩
    | ok p =>
      obtain ⟨s, rfl, holds, -⟩ := Site.exists_holds_of_parse hparse
      by_cases hname : p.member.name = trailerName
      · exact ⟨[], .trailer s, .trailer holds hname⟩
      · -- A member takes at least its header from what is left; only padding may be missing.
        have hinside := Nat.le_trans s.header_le_dataStop holds.dataStop_le
        have hstop := s.header_le_stop
        have hless : bytes.length - s.stop < left := by
          simp only [headerLength] at hinside hstop
          omega
        obtain ⟨found, ending, rest⟩ := ih _ hless s.stop rfl
        exact ⟨(s, p.member) :: found, ending, .member holds hname rest⟩

namespace Scan

variable {bytes bytes' : List Byte} {offset k : Nat} {found : List (Site × Member)} {ending : Ending}

theorem holds (scan : Scan bytes offset found ending) : ∀ f ∈ found, f.1.Holds bytes f.2 := by
  induction scan with
  | trailer holds name => exact fun f hf => absurd hf List.not_mem_nil
  | broken failed => exact fun f hf => absurd hf List.not_mem_nil
  | member holds name rest ih => exact List.forall_mem_cons.2 ⟨holds, ih⟩

/-- No site of a scan, the trailer's included, lies before its start. -/
theorem offset_le (scan : Scan bytes offset found ending) :
    ∀ s ∈ found.map (·.1) ++ ending.site?.toList, offset ≤ s.offset := by
  induction scan with
  | trailer holds name =>
    intro s' hs'
    cases List.mem_singleton.1 hs'
    exact Nat.le_refl _
  | broken failed => exact fun s' hs' => absurd hs' List.not_mem_nil
  | @member s m found ending holds name rest ih =>
    refine List.forall_mem_cons.2 ⟨Nat.le_refl _, fun s' hs' => ?_⟩
    have hstop := s.header_le_stop
    have hbehind := ih s' hs'
    omega

/-- Each member starts where the one before it and its padding have ended. -/
theorem ordered (scan : Scan bytes offset found ending) :
    found.Pairwise fun f g => f.1.stop ≤ g.1.offset := by
  induction scan with
  | trailer holds name => exact .nil
  | broken failed => exact .nil
  | member holds name rest ih =>
    refine List.pairwise_cons.2 ⟨fun g hg => rest.offset_le g.1 ?_, ih⟩
    exact List.mem_append_left _ (List.mem_map_of_mem hg)

theorem four_dvd_offset (scan : Scan bytes offset found ending) (h : 4 ∣ offset) :
    ∀ f ∈ found, 4 ∣ f.1.offset := by
  induction scan with
  | trailer holds name => exact fun f hf => absurd hf List.not_mem_nil
  | broken failed => exact fun f hf => absurd hf List.not_mem_nil
  | member holds name rest ih => exact List.forall_mem_cons.2 ⟨h, ih (align4_dvd _)⟩

/-- The headers of all members have room behind `offset`. -/
theorem headers_le (scan : Scan bytes offset found ending) :
    found = [] ∨ offset + headerLength * found.length ≤ bytes.length := by
  induction scan with
  | trailer holds name => exact Or.inl rfl
  | broken failed => exact Or.inl rfl
  | @member s m found ending holds name rest ih =>
    right
    have hinside := Nat.le_trans s.header_le_dataStop holds.dataStop_le
    have hstop := s.header_le_stop
    rw [List.length_cons, Nat.mul_succ]
    rcases ih with rfl | hrest
    · rw [List.length_nil]
      omega
    · omega

/-- Bytes that agree up to the end of some first members have these members in common. -/
theorem congr (scan : Scan bytes offset found ending) (hagree : bytes'.take k = bytes.take k)
    (n : Nat) (hk : ∀ f ∈ found.take n, f.1.dataStop ≤ k) :
    ∃ others ending', Scan bytes' offset (found.take n ++ others) ending' := by
  induction scan generalizing n with
  | @trailer s m holds name =>
    rw [List.take_nil]
    exact exists_scan bytes' s.offset
  | @broken offset e failed =>
    rw [List.take_nil]
    exact exists_scan bytes' offset
  | @member s m found ending holds name rest ih =>
    cases n with
    | zero =>
      -- Whatever stands here in the other bytes is scanned in its own way.
      exact exists_scan bytes' s.offset
    | succ n =>
      rw [List.take_succ_cons, List.forall_mem_cons] at hk
      obtain ⟨others, ending', rest'⟩ := ih n hk.2
      exact ⟨others, ending', .member (holds.congr hagree hk.1) name rest'⟩

end Scan

/-! ## What a reader puts out -/

/-- A reader that has come to `offset`. -/
def cursorAt (bytes : List Byte) (offset : Nat) : Cursor := ⟨offset, bytes.drop offset, false⟩

namespace Cursor

variable {bytes : List Byte} {s : Site} {m : Member}

theorem next_of_holds (holds : s.Holds bytes m) (name : m.name ≠ trailerName) :
    (cursorAt bytes s.offset).next = (some (.ok m), cursorAt bytes s.stop) := by
  have hstop := s.header_le_stop
  have hresume : s.offset + (s.stop - s.offset) = s.stop := by omega
  simp only [next, cursorAt, Bool.false_eq_true, if_false, holds.parse_eq, if_neg name,
    List.drop_drop, hresume]

theorem next_of_trailer (holds : s.Holds bytes m) (name : m.name = trailerName) :
    (cursorAt bytes s.offset).next = (none, { cursorAt bytes s.offset with done := true }) := by
  simp only [next, cursorAt, Bool.false_eq_true, if_false, holds.parse_eq, if_pos name]

theorem next_of_failed {offset : Nat} {e : ArchiveError}
    (failed : parse offset (bytes.drop offset) = .error e) :
    (cursorAt bytes offset).next =
      (some (.error e), { cursorAt bytes offset with done := true }) := by
  simp only [next, cursorAt, Bool.false_eq_true, if_false, failed]

theorem toList_of_done {c : Cursor} (h : c.done = true) : c.toList = [] :=
  toList_of_none (next_of_done h)

/-- A cursor that has nothing more has been told so and stays where it is. -/
theorem done_of_none {c c' : Cursor} (h : c.next = (none, c')) : c'.done = true := by
  rw [next] at h
  split at h
  · next hdone =>
    cases h
    exact hdone
  · split at h
    · cases h
    · split at h
      · cases h
        rfl
      · cases h

/-- Stepping puts out the items one by one, and nothing ever after. -/
theorem next_after (c : Cursor) (n : Nat) : (c.after n).next.1 = c.toList[n]? := by
  induction n generalizing c with
  | zero =>
    rcases hnext : c.next with ⟨_ | item, c'⟩
    · rw [after, hnext, toList_of_none hnext]
      rfl
    · rw [after, hnext, toList_of_some hnext]
      rfl
  | succ n ih =>
    rcases hnext : c.next with ⟨_ | item, c'⟩
    · rw [after, ih, hnext, toList_of_none hnext, toList_of_done (done_of_none hnext)]
      rfl
    · rw [after, ih, hnext, toList_of_some hnext, List.getElem?_cons_succ]

/-- What a cursor has left is the archive from its offset on. -/
theorem rest_next {c : Cursor} (h : c.rest = bytes.drop c.offset) :
    c.next.2.rest = bytes.drop c.next.2.offset := by
  rw [next]
  split
  · exact h
  · split
    · exact h
    · split
      · exact h
      · show c.rest.drop _ = _
        rw [h, List.drop_drop]

theorem rest_after {c : Cursor} (h : c.rest = bytes.drop c.offset) (n : Nat) :
    (c.after n).rest = bytes.drop (c.after n).offset := by
  induction n generalizing c with
  | zero => exact h
  | succ n ih => exact ih (rest_next h)

end Cursor

namespace Scan

variable {bytes : List Byte} {offset : Nat} {found : List (Site × Member)} {ending : Ending}

/-- The items of a reading: the members of the scan and the error that ends it. -/
theorem toList_eq (scan : Scan bytes offset found ending) :
    (cursorAt bytes offset).toList =
      (found.map (·.2)).map .ok ++ ending.error?.toList.map .error := by
  induction scan with
  | trailer holds name => exact Cursor.toList_of_none (Cursor.next_of_trailer holds name)
  | broken failed =>
    rw [Cursor.toList_of_some (Cursor.next_of_failed failed), Cursor.toList_of_done rfl]
    rfl
  | member holds name rest ih =>
    rw [Cursor.toList_of_some (Cursor.next_of_holds holds name), ih]
    rfl

/-- The reader comes to each site of the scan. -/
theorem after_eq (scan : Scan bytes offset found ending) (n : Nat) (h : n < found.length) :
    (cursorAt bytes offset).after n = cursorAt bytes found[n].1.offset := by
  induction scan generalizing n with
  | trailer holds name => exact absurd h (Nat.not_lt_zero n)
  | broken failed => exact absurd h (Nat.not_lt_zero n)
  | member holds name rest ih =>
    cases n with
    | zero => rfl
    | succ n =>
      rw [Cursor.after, Cursor.next_of_holds holds name]
      exact ih n (Nat.lt_of_succ_lt_succ h)

end Scan

theorem leadingMembers_append (members : List Member) (error? : Option ArchiveError) :
    leadingMembers (members.map .ok ++ error?.toList.map .error) = members := by
  induction members with
  | nil => cases error? <;> rfl
  | cons m members ih =>
    rw [List.map_cons, List.cons_append, leadingMembers, ih]

/-! ## Whole archives -/

theorem bytes_of_ofBytes {bytes : List Byte} {a : Archive} (h : ofBytes bytes = .ok a) :
    a.bytes = bytes := by
  rw [ofBytes] at h
  split at h
  · cases h
  · split at h
    · cases h
    · cases h
      rfl

theorem Scan.entries_eq {a : Archive} {found : List (Site × Member)} {ending : Ending}
    (scan : Scan a.bytes 0 found ending) :
    a.entries = (found.map (·.2)).map .ok ++ ending.error?.toList.map .error :=
  scan.toList_eq

theorem Scan.members_eq {a : Archive} {found : List (Site × Member)} {ending : Ending}
    (scan : Scan a.bytes 0 found ending) : a.members = found.map (·.2) := by
  rw [members, scan.entries_eq, leadingMembers_append]

/-- Each item but an error at the end takes a header's room. -/
theorem Scan.length_entries_le {a : Archive} {found : List (Site × Member)} {ending : Ending}
    (scan : Scan a.bytes 0 found ending) :
    a.entries.length ≤ a.bytes.length / headerLength + 1 := by
  have hfound : found.length ≤ a.bytes.length / headerLength := by
    rw [Nat.le_div_iff_mul_le (by decide), Nat.mul_comm]
    rcases scan.headers_le with rfl | hle
    · exact Nat.zero_le _
    · omega
  have herror : ending.error?.toList.length ≤ 1 := by
    cases ending with
    | trailer s => exact Nat.zero_le 1
    | broken e => exact Nat.le_refl 1
  rw [scan.entries_eq, List.length_append, List.length_map, List.length_map, List.length_map]
  omega

/-- No directory, and the same path in its plain form. -/
def Member.answers (path : String) (m : Member) : Bool :=
  !m.isDirectory && plainPath m.name == plainPath path

/-- Finding, listing and loading go by these members alone. -/
structure LooksIn (a : Archive) (members : List Member) : Prop where
  find? : ∀ path, a.find? path = members.find? (Member.answers path)
  listing : a.listing = (members.take maxListing).map fun m => (m.name, m.data.length)
  sizeOf : ∀ path, ImageSource.sizeOf a path =
    (members.find? (Member.answers path)).elim 0 fun m => m.data.length
  load : ∀ path buffer, ImageSource.load a path buffer =
    (members.find? (Member.answers path)).elim (0, buffer) fun m => overlay m.data buffer

theorem looksIn_members (a : Archive) : a.LooksIn a.members where
  find? _ := rfl
  listing := rfl
  sizeOf _ := rfl
  load _ _ := rfl

/-- In `b` the members `kept`, the first ones of `a`, are unharmed: they are still read first,
    an error behind them hides all the rest, and a path that leads to one of them still does. -/
structure Spares (a b : Archive) (kept : List Member) : Prop where
  isPrefix : kept <+: b.members
  hides : (∃ e, b.entries[kept.length]? = some (.error e)) → b.members = kept
  finds : ∀ path, (kept.find? (Member.answers path)).isSome = true →
    b.find? path = a.find? path

/-- A lookup that succeeds among the first members does not come to the others. -/
theorem find?_of_prefix {kept members : List Member} {path : String} (h : kept <+: members)
    (hfound : (kept.find? (Member.answers path)).isSome = true) :
    members.find? (Member.answers path) = kept.find? (Member.answers path) := by
  obtain ⟨others, rfl⟩ := h
  rw [List.find?_append, Option.or_of_isSome hfound]

theorem Scan.spares {a b : Archive} {found others : List (Site × Member)} {ending ending' : Ending}
    {n : Nat} (scan : Scan a.bytes 0 found ending)
    (scan' : Scan b.bytes 0 (found.take n ++ others) ending') :
    a.Spares b ((found.take n).map (·.2)) := by
  have hmembers : b.members = (found.take n).map (·.2) ++ others.map (·.2) := by
    rw [scan'.members_eq, List.map_append]
  have hfirst : (found.take n).map (·.2) <+: b.members := ⟨_, hmembers.symm⟩
  refine ⟨hfirst, ?_, fun path hpath => ?_⟩
  · rintro ⟨e, he⟩
    -- Behind the first members the scan of `b` has either another member or the error.
    cases others with
    | nil => rw [hmembers, List.map_nil, List.append_nil]
    | cons f others =>
      rw [scan'.entries_eq, List.map_append, List.map_append, List.append_assoc,
        List.getElem?_append_right (by rw [List.length_map])] at he
      simp only [List.length_map, Nat.sub_self] at he
      cases he
  · have hfirst' : (found.take n).map (·.2) <+: a.members := by
      rw [scan.members_eq]
      exact (List.take_prefix n found).map _
    rw [b.looksIn_members.find?, a.looksIn_members.find?, find?_of_prefix hfirst hpath,
      find?_of_prefix hfirst' hpath]

/-- An archive of any bytes is read without a look outside of it, in as many steps as headers
    can stand in it and one more, and puts out members and at most one error behind them. The
    members start at rising multiples of four; each stands with its header, its name and its
    data inside the archive and apart from the others. Lookups go by these members alone: bytes
    that change behind some of them may hide the members that follow, not those. -/
theorem any_bytes_read_safely {bytes : List Byte} {a : Archive}
    (accepted : ofBytes bytes = .ok a) :
    (∀ n, readAt? bytes (a.start.after n).offset =
      some (parse (a.start.after n).offset (a.start.after n).rest)) ∧
    (∀ n, (a.start.after n).next.1 = a.entries[n]?) ∧
    a.entries.length ≤ bytes.length / headerLength + 1 ∧
    ∃ (found : List (Site × Member)) (error? : Option ArchiveError),
      a.entries = (found.map (·.2)).map .ok ++ error?.toList.map .error ∧
      (∀ f ∈ found, f.1.Holds bytes f.2 ∧ 4 ∣ f.1.offset ∧ f.1.extent ⊆ Set.Iio bytes.length) ∧
      (∀ n (h : n < found.length), (a.start.after n).offset = found[n].1.offset) ∧
      (found.Pairwise fun f g => f.1.offset < g.1.offset ∧ Disjoint f.1.extent g.1.extent) ∧
      a.LooksIn (found.map (·.2)) ∧
      ∀ (b : Archive) (k n : Nat), b.bytes.take k = bytes.take k →
        (∀ f ∈ found.take n, f.1.dataStop ≤ k) → a.Spares b ((found.take n).map (·.2)) := by
  cases bytes_of_ofBytes accepted
  obtain ⟨found, ending, scan⟩ := exists_scan a.bytes 0
  refine ⟨fun n => ?_, a.start.next_after, scan.length_entries_le, found, ending.error?,
    scan.entries_eq, fun f hf => ?_, fun n h => ?_, ?_, ?_, fun b k n hagree hk => ?_⟩
  · have hrest : (a.start.after n).rest = a.bytes.drop (a.start.after n).offset :=
      Cursor.rest_after rfl n
    rw [readAt?_eq, hrest]
  · have holds := scan.holds f hf
    exact ⟨holds, scan.four_dvd_offset (Nat.dvd_zero 4) f hf, holds.extent_subset⟩
  · rw [show a.start = cursorAt a.bytes 0 from rfl, scan.after_eq n h]
    rfl
  · refine scan.ordered.imp fun {f g} hle => ?_
    have hheader := f.1.header_le_stop
    have hdata := f.1.dataStop_le_stop
    have hlater : f.1.offset < g.1.offset := by
      simp only [headerLength] at hheader
      omega
    refine ⟨hlater, ?_⟩
    rw [Set.disjoint_left]
    intro x hxf hxg
    have hbefore := (f.1.extent_subset hxf).2
    have hbehind := (g.1.extent_subset hxg).1
    omega
  · rw [← scan.members_eq]
    exact a.looksIn_members
  · obtain ⟨others, ending', scan'⟩ := scan.congr hagree n hk
    exact scan.spares scan'

/-- A member, and behind it a header that is cut off. -/
def damagedBytes : List Byte := (⟨"a", 0o100644, [1, 2, 3]⟩ : Member).toBytes 0 ++ magic

/-- The member is read from the start of the bytes, and behind it the error is put out. -/
theorem any_bytes_read_safely_damaged :
    ofBytes damagedBytes = .ok ⟨damagedBytes⟩ ∧
    (⟨damagedBytes⟩ : Archive).entries.length ≤ damagedBytes.length / headerLength + 1 ∧
    (⟨damagedBytes⟩ : Archive).entries =
      [.ok ⟨"a", 0o100644, [1, 2, 3]⟩, .error (.truncated 116)] ∧
    ∃ site : Site, site.Holds damagedBytes ⟨"a", 0o100644, [1, 2, 3]⟩ ∧ site.offset = 0 ∧
      site.extent ⊆ Set.Iio damagedBytes.length ∧
      (⟨damagedBytes⟩ : Archive).LooksIn [⟨"a", 0o100644, [1, 2, 3]⟩] := by
  have accepted : ofBytes damagedBytes = .ok ⟨damagedBytes⟩ := by decide +kernel
  have hread : (⟨damagedBytes⟩ : Archive).entries =
      [.ok ⟨"a", 0o100644, [1, 2, 3]⟩, .error (.truncated 116)] := by decide +kernel
  obtain ⟨-, -, hlength, found, error?, hentries, hfound, hoffset, -, hlooks, -⟩ :=
    any_bytes_read_safely accepted
  rw [hread] at hentries
  -- One member was put out, so one site was found.
  rcases found with _ | ⟨⟨site, m⟩, _ | ⟨next, found⟩⟩
  · cases error? <;> cases hentries
  · obtain ⟨hm, -⟩ := List.cons.inj hentries
    cases hm
    obtain ⟨holds, -, hinside⟩ := hfound _ List.mem_cons_self
    exact ⟨accepted, hlength, hread, site, holds, (hoffset 0 (by simp)).symm, hinside, hlooks⟩
  · cases hentries

end TaskKernel.Archive
