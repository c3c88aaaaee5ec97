/-
  TaskKernel.Proofs.Archive.Lookup

  Which member a path leads to. Paths are compared without what may stand in front of them,
  so three spellings of a path lead to the same member, which may be stored under any of four
  names; how long it is, what is loaded and where a launch puts it are told by this member.
-/
import TaskKernel.Proofs.Archive.Truncation
import TaskKernel.Proofs.Memory.ImageCopy

namespace TaskKernel.Archive

/-! ## Spellings -/

/-- A path that starts with nothing a comparison leaves out. -/
structure IsPlain (path : String) : Prop where
  dotSlash : ¬ ['.', '/'] <+: path.toList
  slash : ¬ ['/'] <+: path.toList

/-- The ways in which a plain path is asked for. -/
def spellings (path : String) : List String := [path, "./" ++ path, "/" ++ path]

/-- The names that are compared like a plain path. As both of `./` and `/` are left out, one
    after the other, a name may have more in front than a spelling has. -/
def storedNames (path : String) : List String :=
  [path, "./" ++ path, "/" ++ path, ".//" ++ path]

/-- `drop` leaves out `start` where it stands in front, once, and nothing else. -/
structure Strips (start : List Char) (drop : List Char → List Char) : Prop where
  append : ∀ rest, drop (start ++ rest) = rest
  other : ∀ path, ¬ start <+: path → drop path = path

theorem strips_dotSlash : Strips ['.', '/'] dropDotSlash where
  append _ := rfl
  other path h := by
    fun_cases dropDotSlash path with
    | case1 path => exact absurd ⟨path, rfl⟩ h
    | case2 path => rfl

theorem strips_slash : Strips ['/'] dropSlash where
  append _ := rfl
  other path h := by
    fun_cases dropSlash path with
    | case1 path => exact absurd ⟨path, rfl⟩ h
    | case2 path => rfl

theorem Strips.eq_iff {start : List Char} {drop : List Char → List Char}
    (strips : Strips start drop) {path rest : List Char} (h : ¬ start <+: rest) :
    drop path = rest ↔ path = rest ∨ path = start ++ rest := by
  constructor
  · intro heq
    by_cases hstart : start <+: path
    · obtain ⟨path, rfl⟩ := hstart
      rw [strips.append] at heq
      exact Or.inr (congrArg (start ++ ·) heq)
    · rw [strips.other path hstart] at heq
      exact Or.inl heq
  · rintro (rfl | rfl)
    · exact strips.other path h
    · exact strips.append rest

/-- A name and a plain path are compared as equal exactly for the four names. -/
theorem plainPath_eq_iff {path : String} (h : IsPlain path) (name : String) :
    plainPath name = path.toList ↔ name ∈ storedNames path := by
  -- What is left of `.//` still starts with a slash, which the second step leaves out.
  have hslash : ¬ ['.', '/'] <+: ['/'] ++ path.toList := by
    rintro ⟨rest, heq⟩
    cases heq
  have hnames (start : String) : name = start ++ path ↔
      name.toList = start.toList ++ path.toList := by
    rw [← String.toList_inj, String.toList_append]
  rw [plainPath, strips_slash.eq_iff h.slash, strips_dotSlash.eq_iff h.dotSlash,
    strips_dotSlash.eq_iff hslash]
  simp only [storedNames, List.mem_cons, List.not_mem_nil, or_false, hnames, ← String.toList_inj]
  exact or_assoc

theorem plainPath_of_spelling {path spelling : String} (h : IsPlain path)
    (hspelling : spelling ∈ spellings path) : plainPath spelling = path.toList := by
  rw [plainPath_eq_iff h]
  simp only [spellings, storedNames, List.mem_cons] at hspelling ⊢
  tauto

/-! ## The member that is found -/

/-- No directory, and stored under one of the names that a path leads to. -/
def Member.storedUnder (path : String) (m : Member) : Bool :=
  !m.isDirectory && (storedNames path).contains m.name

/-- The data of the first such member; none without one. -/
def storedData (path : String) (members : List Member) : List Byte :=
  (members.find? (Member.storedUnder path)).elim [] Member.data

theorem Member.answers_spelling {path spelling : String} (h : IsPlain path)
    (hspelling : spelling ∈ spellings path) :
    Member.answers spelling = Member.storedUnder path := by
  funext m
  have hname : (plainPath m.name == path.toList) = (storedNames path).contains m.name := by
    rw [Bool.eq_iff_iff, beq_iff_eq, List.contains_iff_mem]
    exact plainPath_eq_iff h m.name
  rw [answers, storedUnder, plainPath_of_spelling h hspelling, hname]

theorem overlay_nil (buffer : List Byte) : overlay [] buffer = (0, buffer) := by
  rw [overlay, List.length_nil, Nat.zero_min]
  rfl

section

variable {a : Archive} {path spelling : String}

theorem find?_spelling (h : IsPlain path) (hspelling : spelling ∈ spellings path) :
    a.find? spelling = a.members.find? (Member.storedUnder path) := by
  rw [a.looksIn_members.find?, Member.answers_spelling h hspelling]

theorem sizeOf_spelling (h : IsPlain path) (hspelling : spelling ∈ spellings path) :
    ImageSource.sizeOf a spelling = (storedData path a.members).length := by
  rw [a.looksIn_members.sizeOf, Member.answers_spelling h hspelling, storedData]
  cases a.members.find? (Member.storedUnder path) with
  | none => rfl
  | some m => rfl

theorem load_spelling (h : IsPlain path) (hspelling : spelling ∈ spellings path)
    (buffer : List Byte) :
    ImageSource.load a spelling buffer = overlay (storedData path a.members) buffer := by
  rw [a.looksIn_members.load, Member.answers_spelling h hspelling, storedData]
  cases a.members.find? (Member.storedUnder path) with
  | none => exact (overlay_nil buffer).symm
  | some m => rfl

end

/-- In a written archive the spellings of a plain path lead to the first member that is no
    directory and has one of its four names, the trailer being no member. The size that is told
    is that of its data, and without a member zero; of a buffer as many bytes are filled as both
    have, and the others are left alone; and a launch, which asks for the size first and then
    for the bytes, puts all of this member's data into memory with zeros up to a page's end. -/
theorem spellings_lead_to_one_member {members : List Member}
    (h : ∀ m ∈ members, m.Writable ∧ m.name ≠ trailerName) (rest : List Byte) {path : String}
    (hpath : IsPlain path) :
    ∃ a, ofBytes (write members ++ rest) = .ok a ∧ ∀ spelling ∈ spellings path,
      a.find? spelling = members.find? (Member.storedUnder path) ∧
      ImageSource.sizeOf a spelling = (storedData path members).length ∧
      (∀ buffer n, n = min (ImageSource.sizeOf a spelling) buffer.length →
        ImageSource.load a spelling buffer =
          (n, (storedData path members).take n ++ buffer.drop n)) ∧
      ∀ (ram : Ram) (image : PhysAddr) (size : Nat), size = ImageSource.sizeOf a spelling →
        loadImage ram a spelling image size = ram.writeBytes image
          (storedData path members ++ List.replicate (pageRoundUp size - size) 0) := by
  have hmembers := members_write h rest
  refine ⟨_, ofBytes_write members rest, fun spelling hspelling => ?_⟩
  have hsize := sizeOf_spelling (a := ⟨write members ++ rest⟩) hpath hspelling
  have hload := load_spelling (a := ⟨write members ++ rest⟩) hpath hspelling
  rw [hmembers] at hsize hload
  refine ⟨?_, hsize, ?_, ?_⟩
  · rw [find?_spelling hpath hspelling, hmembers]
  · rintro buffer n rfl
    rw [hload, hsize, overlay]
  · rintro ram image size rfl
    rw [hsize]
    exact loadImage_of_overlay hload ram image

/-- A directory of the name that is asked for, and two files that are stored under others. -/
theorem spellings_lead_to_one_member_init :
    ∃ a, ofBytes (write [⟨"init", 0o040755, []⟩, ⟨".//init", 0o100755, [1, 2]⟩,
        ⟨"init", 0o100755, [3, 4, 5]⟩] ++ magic) = .ok a ∧
      ∀ spelling ∈ ["init", "./init", "/init"],
        a.find? spelling = some ⟨".//init", 0o100755, [1, 2]⟩ ∧
        ImageSource.load a spelling [7, 8, 9] = (2, [1, 2, 9]) := by
  have h : ∀ m ∈ [(⟨"init", 0o040755, []⟩ : Member), ⟨".//init", 0o100755, [1, 2]⟩,
      ⟨"init", 0o100755, [3, 4, 5]⟩], m.Writable ∧ m.name ≠ trailerName := by
    rw [List.forall_mem_cons, List.forall_mem_cons, List.forall_mem_singleton]
    refine ⟨⟨⟨by decide, by decide +kernel, by decide⟩, by decide⟩, ?_, ?_⟩
    all_goals exact ⟨⟨by decide, by decide +kernel, by decide⟩, by decide⟩
  have hplain : IsPlain "init" := ⟨by decide, by decide⟩
  obtain ⟨a, haccepted, hspellings⟩ := spellings_lead_to_one_member h magic hplain
  refine ⟨a, haccepted, fun spelling hspelling => ?_⟩
  obtain ⟨hfind, hsize, hload, -⟩ := hspellings spelling hspelling
  refine ⟨hfind, ?_⟩
  rw [hload [7, 8, 9] 2 (by rw [hsize]; decide)]
  decide

end TaskKernel.Archive
