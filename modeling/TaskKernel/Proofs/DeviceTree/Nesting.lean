/-
  TaskKernel.Proofs.DeviceTree.Nesting

  Which structure blocks a visit accepts. Tokens are well nested if each of those that close a
  node finds one open, properties lie in open nodes and no node is left open. A visit keeps track
  of the open nodes but checks only that they do not become too many: closing with no node open
  has no effect, a property may lie in no node, and nodes may be left open at the end.
-/
import Mathlib.Data.List.Induction
import TaskKernel.Proofs.DeviceTree.DocumentOrder

namespace TaskKernel.DeviceTree

/-! ## Well-nested tokens -/

/-- True of a token that opens a node. -/
def Token.opens : Token → Bool
  | beginNode _ => true
  | _ => false

/-- How many nodes the tokens open. -/
def opened (tokens : List Token) : Nat := tokens.countP Token.opens

/-- How often the tokens close a node. -/
def closed (tokens : List Token) : Nat := tokens.count .endNode

structure WellNested (tokens : List Token) : Prop where
  /-- A node is open wherever one is closed. -/
  closes : ∀ pre post, tokens = pre ++ .endNode :: post → closed pre < opened pre
  /-- A node is open wherever a property lies. -/
  holds : ∀ pre name value post, tokens = pre ++ .property name value :: post →
    closed pre < opened pre
  /-- No node is left open. -/
  ends : closed tokens = opened tokens

/-! ## Open nodes -/

/-- The open nodes after one more token. With no node open there is nothing to close. -/
def Token.openAfter (path : List String) : Token → List String
  | beginNode name => path ++ [name]
  | endNode => path.dropLast
  | _ => path

/-- The nodes that are open after the tokens, from the outermost to the innermost. -/
def openNodes (path : List String) (tokens : List Token) : List String :=
  tokens.foldl Token.openAfter path

/-- The properties among the tokens, each with the nodes that are open around it. -/
def placed (path : List String) : List Token → List Property
  | [] => []
  | .property name value :: tokens => ⟨path, name, value⟩ :: placed path tokens
  | t :: tokens => placed (t.openAfter path) tokens

/-- At no point are more nodes open than a visit keeps track of. -/
def Shallow (path : List String) (tokens : List Token) : Prop :=
  ∀ pre, pre <+: tokens → (openNodes path pre).length ≤ maxDepth

theorem openNodes_concat (path : List String) (tokens : List Token) (t : Token) :
    openNodes path (tokens ++ [t]) = t.openAfter (openNodes path tokens) := by
  rw [openNodes, List.foldl_append]
  rfl

theorem shallow_nil {path : List String} : Shallow path [] ↔ path.length ≤ maxDepth := by
  constructor
  · intro h
    exact h [] List.nil_prefix
  · intro h pre hpre
    rw [List.prefix_nil.1 hpre]
    exact h

theorem shallow_cons {path : List String} {t : Token} {tokens : List Token} :
    Shallow path (t :: tokens) ↔ path.length ≤ maxDepth ∧ Shallow (t.openAfter path) tokens := by
  constructor
  · intro h
    refine ⟨h [] List.nil_prefix, ?_⟩
    intro pre hpre
    exact h (t :: pre) ((List.prefix_cons_inj t).2 hpre)
  · rintro ⟨hpath, h⟩ pre hpre
    obtain rfl | ⟨pre', rfl, hpre'⟩ := List.prefix_cons_iff.1 hpre
    · exact hpath
    · exact h pre' hpre'

theorem mem_placed_cons {path : List String} {t : Token} {tokens : List Token} {p : Property}
    (h : p ∈ placed path (t :: tokens)) :
    t = .property p.name p.value ∧ p.path = path ∨ p ∈ placed (t.openAfter path) tokens := by
  cases t with
  | property name value =>
    obtain rfl | h := List.mem_cons.1 h
    · exact Or.inl ⟨rfl, rfl⟩
    · exact Or.inr h
  | beginNode name => exact Or.inr h
  | endNode => exact Or.inr h
  | nop => exact Or.inr h
  | finish => exact Or.inr h

theorem placed_append (path : List String) (tokens rest : List Token) :
    placed path (tokens ++ rest) = placed path tokens ++ placed (openNodes path tokens) rest := by
  induction tokens generalizing path with
  | nil => rfl
  | cons t tokens ih =>
    cases t with
    | property name value => exact congrArg (⟨path, name, value⟩ :: ·) (ih path)
    | beginNode name => exact ih (path ++ [name])
    | endNode => exact ih path.dropLast
    | nop => exact ih path
    | finish => exact ih path

/-- Where a property lies, the nodes that are open after the tokens before it are around it. -/
theorem exists_of_mem_placed {path : List String} {tokens : List Token} {p : Property}
    (h : p ∈ placed path tokens) :
    ∃ pre post, tokens = pre ++ .property p.name p.value :: post ∧ p.path = openNodes path pre := by
  induction tokens generalizing path with
  | nil => cases h
  | cons t tokens ih =>
    obtain ⟨rfl, hpath⟩ | h := mem_placed_cons h
    · exact ⟨[], tokens, rfl, hpath⟩
    · obtain ⟨pre, post, rfl, hpath⟩ := ih h
      exact ⟨t :: pre, post, rfl, hpath⟩

/-! ## Counting open nodes -/

theorem opened_concat (tokens : List Token) (t : Token) :
    opened (tokens ++ [t]) = opened tokens + if t.opens then 1 else 0 := by
  rw [opened, List.countP_append, List.countP_singleton]
  rfl

theorem closed_concat (tokens : List Token) (t : Token) :
    closed (tokens ++ [t]) = closed tokens + if t = .endNode then 1 else 0 := by
  rw [closed, List.count_append, List.count_singleton]
  simp only [beq_iff_eq]
  rfl

/-- Every node that was opened is still open or was closed; some closing may have had no effect. -/
theorem opened_le (tokens : List Token) :
    opened tokens ≤ (openNodes [] tokens).length + closed tokens := by
  induction tokens using List.reverseRecOn with
  | nil => exact Nat.le_refl 0
  | append_singleton tokens t ih =>
    rw [openNodes_concat, opened_concat, closed_concat]
    cases t with
    | beginNode name =>
      simp only [Token.openAfter, Token.opens, List.length_append, List.length_singleton, if_true,
        reduceCtorEq, if_false]
      omega
    | endNode =>
      simp only [Token.openAfter, Token.opens, List.length_dropLast, if_true, Bool.false_eq_true,
        if_false]
      omega
    | property name value => exact ih
    | nop => exact ih
    | finish => exact ih

/-- No token closes a node where none is open. -/
def Unstrayed (tokens : List Token) : Prop :=
  ∀ pre post, tokens = pre ++ .endNode :: post → openNodes [] pre ≠ []

theorem Unstrayed.of_append {tokens rest : List Token} (h : Unstrayed (tokens ++ rest)) :
    Unstrayed tokens := by
  rintro pre post rfl
  exact h pre (post ++ rest) (by rw [List.append_assoc, List.cons_append])

/-- If every closing has an effect, the open nodes are those that were opened and not closed. -/
theorem Unstrayed.opened_eq {tokens : List Token} (h : Unstrayed tokens) :
    opened tokens = (openNodes [] tokens).length + closed tokens := by
  induction tokens using List.reverseRecOn with
  | nil => rfl
  | append_singleton tokens t ih =>
    have hbefore := ih h.of_append
    rw [openNodes_concat, opened_concat, closed_concat]
    cases t with
    | beginNode name =>
      simp only [Token.openAfter, Token.opens, List.length_append, List.length_singleton, if_true,
        reduceCtorEq, if_false]
      omega
    | endNode =>
      have hopen := List.length_pos_iff.2 (h tokens [] rfl)
      simp only [Token.openAfter, Token.opens, List.length_dropLast, if_true, Bool.false_eq_true,
        if_false]
      omega
    | property name value => exact hbefore
    | nop => exact hbefore
    | finish => exact hbefore

/-- More were opened than closed where a node is open, if every closing has an effect. -/
theorem Unstrayed.closed_lt_iff {tokens : List Token} (h : Unstrayed tokens) :
    closed tokens < opened tokens ↔ openNodes [] tokens ≠ [] := by
  have heq := h.opened_eq
  rw [← List.length_pos_iff]
  omega

/-- Nesting told by the open nodes. -/
theorem wellNested_iff {tokens : List Token} :
    WellNested tokens ↔ Unstrayed tokens ∧
      (∀ p ∈ placed [] tokens, p.path ≠ []) ∧ openNodes [] tokens = [] := by
  constructor
  · intro h
    have hopen {pre : List Token} (hlt : closed pre < opened pre) : openNodes [] pre ≠ [] := by
      have hle := opened_le pre
      rw [← List.length_pos_iff]
      omega
    have hunstrayed : Unstrayed tokens := fun pre post hsplit => hopen (h.closes pre post hsplit)
    refine ⟨hunstrayed, ?_, ?_⟩
    · intro p hp
      obtain ⟨pre, post, hsplit, hpath⟩ := exists_of_mem_placed hp
      rw [hpath]
      exact hopen (h.holds pre p.name p.value post hsplit)
    · have heq := hunstrayed.opened_eq
      have hends := h.ends
      rw [← List.length_eq_zero_iff]
      omega
  · rintro ⟨hunstrayed, hplaced, hends⟩
    refine ⟨?_, ?_, ?_⟩
    · rintro pre post rfl
      exact hunstrayed.of_append.closed_lt_iff.2 (hunstrayed pre post rfl)
    · rintro pre name value post rfl
      refine hunstrayed.of_append.closed_lt_iff.2 (hplaced ⟨openNodes [] pre, name, value⟩ ?_)
      rw [placed_append]
      exact List.mem_append_right _ List.mem_cons_self
    · have heq := hunstrayed.opened_eq
      rw [hends, List.length_nil, Nat.zero_add] at heq
      exact heq.symm

/-! ## What a visit accepts -/

/-- A visit that is never stopped fails if the nodes become too many, and otherwise ends as the
    tokens do and has seen all properties. -/
theorem visitTokens_record (ending : Except TreeError Unit) {path : List String}
    {tokens : List Token} (hfinish : Token.finish ∉ tokens) (hpath : path.length ≤ maxDepth)
    (seen : List Property) :
    (Shallow path tokens → visitTokens (record none) ending path seen tokens =
      (ending, seen ++ placed path tokens)) ∧
    (¬ Shallow path tokens →
      (visitTokens (record none) ending path seen tokens).1 = .error .tooDeep) := by
  induction tokens generalizing path seen with
  | nil =>
    refine ⟨fun _ => by rw [visitTokens, placed, List.append_nil], ?_⟩
    intro hdeep
    exact absurd (shallow_nil.2 hpath) hdeep
  | cons t tokens ih =>
    rw [List.mem_cons, not_or] at hfinish
    rw [shallow_cons, and_iff_right hpath]
    cases t with
    | beginNode name =>
      have hlength : (path ++ [name]).length = path.length + 1 := List.length_append
      by_cases hroom : path.length < maxDepth
      · rw [visitTokens, if_pos hroom]
        exact ih hfinish.2 (hlength ▸ hroom) seen
      · rw [visitTokens, if_neg hroom]
        refine ⟨fun hshallow => ?_, fun _ => rfl⟩
        -- The node itself is one too many.
        have hmany := hshallow [] List.nil_prefix
        rw [openNodes, List.foldl_nil, Token.openAfter, hlength] at hmany
        omega
    | endNode =>
      have hclosed : path.dropLast.length ≤ maxDepth := by
        rw [List.length_dropLast]
        omega
      exact ih hfinish.2 hclosed seen
    | property name value =>
      have hnext : record none seen ⟨path, name, value⟩ = (false, seen ++ [⟨path, name, value⟩]) :=
        rfl
      have hrest := ih hfinish.2 hpath (seen ++ [⟨path, name, value⟩])
      rw [List.append_assoc, List.singleton_append] at hrest
      rw [visitTokens, hnext]
      exact hrest
    | nop => exact ih hfinish.2 hpath seen
    | finish => exact absurd rfl hfinish.1

/-- The token that ends a structure block is not among its tokens. -/
theorem Blob.finish_notMem_tokensFrom (b : Blob) (offset : Nat) :
    Token.finish ∉ (b.tokensFrom offset).tokens := by
  fun_induction b.tokensFrom offset with
  | case1 offset e hread => exact List.not_mem_nil
  | case2 offset r hread hnext hfinish => exact List.not_mem_nil
  | case3 offset r hread hnext hother run ih =>
    rw [List.mem_cons, not_or]
    exact ⟨Ne.symm hother, ih⟩

/-- A visit that is never stopped accepts a structure block if it can be read up to its end mark
    and never has more nodes open than the visit keeps track of; that closing has an effect, that
    properties lie in nodes and that no node is left open it does not ask for. What it rejects has
    too many open nodes or a token that cannot be read. Of an accepted block it has shown all
    properties, each with the nodes that are open around it. -/
theorem visit_checks_depth_only (b : Blob) :
    ((b.properties none).1 = .ok () ↔ b.tokens.ending = .ok () ∧ Shallow [] b.tokens.tokens) ∧
    (∀ e, (b.properties none).1 = .error e → e = .tooDeep ∨ b.tokens.ending = .error e) ∧
    ((b.properties none).1 = .ok () →
      (b.properties none).2 = placed [] b.tokens.tokens ∧
      (WellNested b.tokens.tokens ↔ Unstrayed b.tokens.tokens ∧
        (∀ p ∈ (b.properties none).2, p.path ≠ []) ∧ openNodes [] b.tokens.tokens = [])) := by
  have hfinish := b.finish_notMem_tokensFrom b.structureOffset
  have hnone : ([] : List String).length ≤ maxDepth := Nat.zero_le maxDepth
  have hvisit : (Shallow [] b.tokens.tokens →
        b.properties none = (b.tokens.ending, [] ++ placed [] b.tokens.tokens)) ∧
      (¬ Shallow [] b.tokens.tokens → (b.properties none).1 = .error .tooDeep) :=
    visitTokens_record b.tokens.ending hfinish hnone []
  obtain ⟨hshown, hdeep⟩ := hvisit
  by_cases hshallow : Shallow [] b.tokens.tokens
  · rw [hshown hshallow, List.nil_append]
    refine ⟨(and_iff_left hshallow).symm, fun e he => Or.inr he, fun _ => ⟨rfl, wellNested_iff⟩⟩
  · have herror := hdeep hshallow
    rw [herror]
    refine ⟨?_, ?_, ?_⟩
    · exact iff_of_false (fun h => by cases h) (fun h => hshallow h.2)
    · intro e he
      exact Or.inl (Except.error.inj he).symm
    · intro h
      cases h

/-- A node too many is closed, a property lies in no node, and a node is left open. -/
def unnestedTokens : List Token :=
  [.beginNode "", .endNode, .endNode, .property "reg" [7], .beginNode "cpus"]

theorem unnested_blob_accepted : ∃ b, Blob.ofBytes (writeTokens unnestedTokens) = .ok b ∧
    b.properties none = (.ok (), [⟨[], "reg", [7]⟩]) ∧ ¬ WellNested b.tokens.tokens := by
  have hsize : (writeTokens unnestedTokens).length < 2 ^ 32 := by decide +kernel
  have hread := ofBytes_writeTokens hsize []
  rw [List.append_nil] at hread
  have htokens : (writtenBlob unnestedTokens).tokens = ⟨unnestedTokens, .ok ()⟩ :=
    tokens_writtenBlob (by decide) hsize
  refine ⟨_, hread, ?_, ?_⟩
  · rw [Blob.properties_eq, Blob.visit, htokens]
    rfl
  · rw [htokens]
    intro hnested
    -- The second closing finds no node open.
    exact absurd (hnested.closes [.beginNode "", .endNode] _ rfl) (by decide)

end TaskKernel.DeviceTree
