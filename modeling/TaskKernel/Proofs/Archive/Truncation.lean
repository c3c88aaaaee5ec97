/-
  TaskKernel.Proofs.Archive.Truncation

  An archive of which only the first bytes are left. The members whose data end in them are
  read as before; the next one is reported as truncated where it starts, whichever of its
  pieces the cut has taken away. So a lookup in the rest finds what it found in the whole, or
  nothing.
-/
import TaskKernel.Proofs.Archive.Scans

namespace TaskKernel.Archive

/-! ## Cutting a scan -/

/-- Of a scan that came to its trailer a cut leaves the sites that end before it, and turns
    the first of the others into an error. -/
theorem Scan.cut {bytes : List Byte} {offset : Nat} {found : List (Site × Member)} {t : Site}
    (scan : Scan bytes offset found (.trailer t)) (k : Nat) :
    ∃ n ending, Scan (bytes.take k) offset (found.take n) ending ∧
      (∀ i s, (found.map (·.1) ++ [t])[i]? = some s → (s.dataStop ≤ k ↔ i < n)) ∧
      ending.error? = (found.map (·.1) ++ [t])[n]?.map fun s => .truncated s.offset := by
  have hagree : (bytes.take k).take k = bytes.take k := by rw [List.take_take, Nat.min_self]
  generalize hending : Ending.trailer t = ending at scan
  induction scan with
  | @trailer s m holds name =>
    cases hending
    by_cases hfits : t.dataStop ≤ k
    · refine ⟨1, .trailer t, .trailer (holds.congr hagree hfits) name, fun i s hs => ?_, rfl⟩
      cases i with
      | zero =>
        cases hs
        exact iff_of_true hfits Nat.one_pos
      | succ i => cases hs
    · refine ⟨0, _, .broken (holds.parse_take (Nat.lt_of_not_le hfits)), fun i s hs => ?_, rfl⟩
      cases i with
      | zero =>
        cases hs
        exact iff_of_false hfits (Nat.lt_irrefl 0)
      | succ i => cases hs
  | broken failed => cases hending
  | @member s m found ending holds name rest ih =>
    by_cases hfits : s.dataStop ≤ k
    · obtain ⟨n, ending', scan', hstops, herror⟩ := ih hending
      refine ⟨n + 1, ending', .member (holds.congr hagree hfits) name scan', fun i s' hs' => ?_,
        herror⟩
      cases i with
      | zero =>
        cases hs'
        exact iff_of_true hfits (Nat.succ_pos n)
      | succ i => exact (hstops i s' hs').trans Nat.succ_lt_succ_iff.symm
    · refine ⟨0, _, .broken (holds.parse_take (Nat.lt_of_not_le hfits)), fun i s' hs' => ?_, rfl⟩
      refine iff_of_false ?_ (Nat.not_lt_zero i)
      cases i with
      | zero =>
        cases hs'
        exact hfits
      | succ i =>
        -- All that follows starts behind the end that the cut has taken away.
        cases hending
        have hbehind := rest.offset_le s' (List.mem_of_getElem? hs')
        have hstop := s.dataStop_le_stop
        have hown := s'.header_le_dataStop
        omega

/-! ## Written archives -/

/-- Where the member stands when it is written at `offset`. -/
def Member.site (m : Member) (offset : Nat) : Site := ⟨offset, m.nameSize, m.data.length⟩

/-- The members with their sites when they are written one after the other. -/
def placesFrom (offset : Nat) : List Member → List (Site × Member)
  | [] => []
  | m :: members => (m.site offset, m) :: placesFrom (m.stop offset) members

theorem map_snd_placesFrom (offset : Nat) (members : List Member) :
    (placesFrom offset members).map (·.2) = members := by
  induction members generalizing offset with
  | nil => rfl
  | cons m members ih => rw [placesFrom, List.map_cons, ih]

theorem length_placesFrom (offset : Nat) (members : List Member) :
    (placesFrom offset members).length = members.length := by
  rw [← List.length_map (·.2), map_snd_placesFrom]

theorem Member.site_stop (m : Member) (offset : Nat) : (m.site offset).stop = m.stop offset := rfl

theorem Member.plus_length_toBytes (m : Member) (offset : Nat) :
    offset + (m.toBytes offset).length = m.stop offset := by
  have hstop := (m.site offset).header_le_stop
  rw [m.site_stop] at hstop
  have hoffset : (m.site offset).offset = offset := rfl
  rw [m.length_toBytes]
  omega

/-- A written member stands at its site. -/
theorem Member.site_holds {m : Member} (h : m.Writable) {bytes rest : List Byte} {offset : Nat}
    (hbytes : bytes.drop offset = m.toBytes offset ++ rest) : (m.site offset).Holds bytes m := by
  have hparse := parse_toBytes offset h rest
  rw [← hbytes] at hparse
  obtain ⟨s, rfl, holds, -⟩ := Site.exists_holds_of_parse hparse
  -- The header that was written has the lengths of the member.
  obtain ⟨header, hheader, heads⟩ := holds.header
  obtain ⟨tail, htail⟩ := m.exists_toBytes_eq s.offset rest
  obtain ⟨-, rfl⟩ := slice?_eq_some_iff.1 hheader
  rw [hbytes, htail, List.take_left' m.length_header] at heads
  obtain ⟨-, hfile, hname⟩ := field?_header h []
  rw [List.append_nil] at hfile hname
  have hdataSize := Option.some_inj.1 (heads.dataSize.symm.trans hfile)
  have hnameSize := Option.some_inj.1 (heads.nameSize.symm.trans hname)
  have hsite : m.site s.offset = s := by
    rw [Member.site, ← hdataSize, ← hnameSize]
  rw [hsite]
  exact holds

/-- The trailer has no data, so its padded name ends it. -/
theorem Member.trailer_dataStop (offset : Nat) :
    (Member.trailer.site offset).dataStop = Member.trailer.stop offset :=
  (align4_of_dvd (align4_dvd _)).symm

/-- A written archive is scanned site by site up to its trailer, which ends it. -/
theorem scan_membersToBytes {members : List Member}
    (h : ∀ m ∈ members, m.Writable ∧ m.name ≠ trailerName) {bytes rest : List Byte} {offset : Nat}
    (hbytes : bytes.drop offset = membersToBytes offset (members ++ [.trailer]) ++ rest) :
    ∃ t : Site, Scan bytes offset (placesFrom offset members) (.trailer t) ∧
      (placesFrom offset (members ++ [.trailer])).map (·.1) =
        (placesFrom offset members).map (·.1) ++ [t] ∧
      t.dataStop = offset + (membersToBytes offset (members ++ [.trailer])).length := by
  induction members generalizing offset with
  | nil =>
    rw [List.nil_append, membersToBytes, membersToBytes, List.append_nil] at hbytes ⊢
    have holds := Member.site_holds Member.writable_trailer hbytes
    refine ⟨Member.trailer.site offset, .trailer holds rfl, rfl, ?_⟩
    rw [Member.plus_length_toBytes, Member.trailer_dataStop]
  | cons m members ih =>
    rw [List.forall_mem_cons] at h
    obtain ⟨⟨hwritable, hname⟩, hmembers⟩ := h
    rw [List.cons_append, membersToBytes] at hbytes ⊢
    rw [List.append_assoc] at hbytes
    have holds := Member.site_holds hwritable hbytes
    have hrest := congrArg (List.drop (m.toBytes offset).length) hbytes
    rw [List.drop_drop, List.drop_left, m.plus_length_toBytes] at hrest
    obtain ⟨t, scan, hplaces, hstop⟩ := ih hmembers hrest
    refine ⟨t, .member holds hname scan, ?_, ?_⟩
    · rw [placesFrom, List.map_cons, hplaces]
      rfl
    · rw [hstop, List.length_append, m.plus_length_toBytes, ← Nat.add_assoc,
        m.plus_length_toBytes]

/-- The sites of the members in the archive that is written, and of its trailer. -/
def writtenSites (members : List Member) : List Site :=
  (placesFrom 0 (members ++ [.trailer])).map (·.1)

theorem length_writtenSites (members : List Member) :
    (writtenSites members).length = members.length + 1 := by
  rw [writtenSites, List.length_map, length_placesFrom, List.length_append, List.length_singleton]

theorem scan_write {members : List Member}
    (h : ∀ m ∈ members, m.Writable ∧ m.name ≠ trailerName) (rest : List Byte) :
    ∃ t : Site, Scan (write members ++ rest) 0 (placesFrom 0 members) (.trailer t) ∧
      writtenSites members = (placesFrom 0 members).map (·.1) ++ [t] ∧
      t.dataStop = (write members).length := by
  have hbytes : (write members ++ rest).drop 0 =
      membersToBytes 0 (members ++ [.trailer]) ++ rest := rfl
  obtain ⟨t, scan, hsites, hstop⟩ := scan_membersToBytes h hbytes
  rw [Nat.zero_add] at hstop
  exact ⟨t, scan, hsites, hstop⟩

theorem members_write {members : List Member}
    (h : ∀ m ∈ members, m.Writable ∧ m.name ≠ trailerName) (rest : List Byte) :
    Archive.members ⟨write members ++ rest⟩ = members := by
  obtain ⟨t, scan, -⟩ := scan_write h rest
  rw [scan.members_eq, map_snd_placesFrom]

/-! ## Cutting a written archive -/

/-- A whole header is left, so the rest of an archive is accepted as one. -/
theorem ofBytes_take {bytes : List Byte} {a : Archive} (h : ofBytes bytes = .ok a) {k : Nat}
    (hk : headerLength ≤ k) : ofBytes (bytes.take k) = .ok ⟨bytes.take k⟩ := by
  rw [ofBytes] at h
  split at h
  · cases h
  · next hlength =>
    split at h
    · cases h
    · next hmagic =>
      have hmagic' : magic.length ≤ k := Nat.le_trans (by decide) hk
      rw [ofBytes, if_neg, if_neg]
      · rwa [List.take_take, Nat.min_eq_left hmagic']
      · rw [List.length_take]
        omega

/-- A path leads to the same in an archive that has only some first members of another, or to
    nothing. -/
theorem lookup_of_prefix {a whole : Archive} (h : a.members <+: whole.members) (path : String) :
    (ImageSource.sizeOf a path = ImageSource.sizeOf whole path ∧
      ∀ buffer, ImageSource.load a path buffer = ImageSource.load whole path buffer) ∨
    (ImageSource.sizeOf a path = 0 ∧
      ∀ buffer, ImageSource.load a path buffer = (0, buffer)) := by
  cases hfind : a.members.find? (Member.answers path) with
  | none =>
    right
    refine ⟨?_, fun buffer => ?_⟩
    · rw [a.looksIn_members.sizeOf, hfind]
      rfl
    · rw [a.looksIn_members.load, hfind]
      rfl
  | some m =>
    left
    have hfound : (a.members.find? (Member.answers path)).isSome = true := by
      rw [hfind]
      rfl
    have hsame := find?_of_prefix h hfound
    refine ⟨?_, fun buffer => ?_⟩
    · rw [a.looksIn_members.sizeOf, whole.looksIn_members.sizeOf, hsame]
    · rw [a.looksIn_members.load, whole.looksIn_members.load, hsame]

/-- A reading puts out all members and no error only if it has come past all of them. -/
theorem map_ok_eq_iff (members : List Member) (n : Nat) (error? : Option ArchiveError) :
    ((members.take n).map .ok ++ error?.toList.map .error : List (Except ArchiveError Member)) =
        members.map .ok ↔
      members.length ≤ n ∧ error? = none := by
  constructor
  · intro hclean
    have hcount := congrArg List.length hclean
    cases error? with
    | none =>
      rw [Option.toList_none, List.map_nil, List.append_nil, List.length_map, List.length_map,
        List.length_take] at hcount
      exact ⟨by omega, rfl⟩
    | some e =>
      -- The members are no errors.
      have herror : .error e ∈ (members.map .ok : List (Except ArchiveError Member)) := by
        rw [← hclean]
        exact List.mem_append_right _ (List.mem_singleton.2 rfl)
      obtain ⟨m, -, hm⟩ := List.mem_map.1 herror
      cases hm
  · rintro ⟨hall, rfl⟩
    rw [List.take_of_length_le hall]
    exact List.append_nil _

/-- Of a written archive that is cut to its first bytes, as many as a header has at least, the
    members are left whose data end before the cut; they are the first ones, and they are read
    as they were written. The next one, be it the trailer, is reported as truncated at its own
    offset; there is none exactly if the trailer was left too. Each path leads to what it led
    to in the whole archive or to nothing. -/
theorem cut_archive_keeps_first_members {members : List Member}
    (h : ∀ m ∈ members, m.Writable ∧ m.name ≠ trailerName) (rest : List Byte) {k : Nat}
    (hk : headerLength ≤ k) :
    ∃ whole a n, ofBytes (write members ++ rest) = .ok whole ∧
      ofBytes ((write members ++ rest).take k) = .ok a ∧
      (∀ i s, (writtenSites members)[i]? = some s → (s.dataStop ≤ k ↔ i < n)) ∧
      a.entries = (members.take n).map .ok ++
        ((writtenSites members)[n]?.map fun s => .truncated s.offset).toList.map .error ∧
      (a.entries = members.map .ok ↔ (write members).length ≤ k) ∧
      ∀ path,
        (ImageSource.sizeOf a path = ImageSource.sizeOf whole path ∧
          ∀ buffer, ImageSource.load a path buffer = ImageSource.load whole path buffer) ∨
        (ImageSource.sizeOf a path = 0 ∧
          ∀ buffer, ImageSource.load a path buffer = (0, buffer)) := by
  have haccepted := ofBytes_write members rest
  obtain ⟨t, scan, hsites, hstop⟩ := scan_write h rest
  obtain ⟨n, ending, scan', hstops, herror⟩ := scan.cut k
  rw [← hsites] at hstops herror
  have hmembers : Archive.members ⟨(write members ++ rest).take k⟩ = members.take n := by
    rw [scan'.members_eq, List.map_take, map_snd_placesFrom]
  have hentries : Archive.entries ⟨(write members ++ rest).take k⟩ = (members.take n).map .ok ++
      ((writtenSites members)[n]?.map fun s => .truncated s.offset).toList.map .error := by
    rw [scan'.entries_eq, List.map_take, map_snd_placesFrom, herror]
  refine ⟨_, _, n, haccepted, ofBytes_take haccepted hk, hstops, hentries, ?_, fun path => ?_⟩
  · -- The trailer is the last of the sites and ends where the archive does.
    have hlast : (writtenSites members)[members.length]? = some t := by
      have hcount : ((placesFrom 0 members).map (·.1)).length = members.length := by
        rw [List.length_map, length_placesFrom]
      rw [hsites, ← hcount, List.getElem?_concat_length]
    rw [← hstop, hstops _ t hlast, hentries, map_ok_eq_iff, Option.map_eq_none_iff,
      List.getElem?_eq_none_iff, length_writtenSites]
    omega
  · apply lookup_of_prefix
    rw [hmembers, members_write h rest]
    exact List.take_prefix n members

/-- Two members, the second of which loses three bytes of its data. -/
theorem cut_archive_keeps_first_members_body :
    ∃ a, ofBytes ((write [⟨"a", 0o100644, [1, 2, 3]⟩, ⟨"b", 0o100644, [4, 5, 6, 7, 8]⟩]).take
        230) = .ok a ∧
      a.entries = [.ok ⟨"a", 0o100644, [1, 2, 3]⟩, .error (.truncated 116)] ∧
      ImageSource.sizeOf a "b" = 0 := by
  have h : ∀ m ∈ [(⟨"a", 0o100644, [1, 2, 3]⟩ : Member), ⟨"b", 0o100644, [4, 5, 6, 7, 8]⟩],
      m.Writable ∧ m.name ≠ trailerName := by
    rw [List.forall_mem_cons, List.forall_mem_singleton]
    refine ⟨⟨⟨by decide, by decide +kernel, by decide⟩, by decide⟩, ?_⟩
    exact ⟨⟨by decide, by decide +kernel, by decide⟩, by decide⟩
  obtain ⟨whole, a, n, -, haccepted, hstops, hentries, -, hlookups⟩ :=
    cut_archive_keeps_first_members h [] (show headerLength ≤ 230 by decide)
  -- The data of the members end at 115 and 233.
  have hfirst : 0 < n := (hstops 0 _ rfl).1 (by decide)
  have hsecond : ¬ 1 < n := fun hlt => absurd ((hstops 1 _ rfl).2 hlt) (by decide)
  obtain rfl : n = 1 := by omega
  rw [List.append_nil] at haccepted
  refine ⟨a, haccepted, hentries, ?_⟩
  rw [a.looksIn_members.sizeOf, members, hentries]
  decide

end TaskKernel.Archive
