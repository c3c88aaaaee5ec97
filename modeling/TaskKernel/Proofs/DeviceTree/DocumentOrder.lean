/-
  TaskKernel.Proofs.DeviceTree.DocumentOrder

  Visiting a written devicetree. In document order a tree comes apart into nodes and
  properties, each with its path. A visit shows the properties that precede the first node
  too deep to keep track of, and fails there; without such a node it shows all of them and
  ends well. Tokens without meaning among those of the tree change nothing.
-/
import Mathlib.Data.List.TakeWhile
import TaskKernel.Proofs.DeviceTree.ReadBack

namespace TaskKernel.DeviceTree

/-! ## Document order -/

/-- What a reader of a tree comes across. -/
inductive Item where
  /-- A node, by the names from the root down to its own. -/
  | node (path : List String)
  | property (p : Property)
deriving DecidableEq, Repr

namespace Item

def property? : Item → Option Property
  | node _ => none
  | property p => some p

/-- False of a node that a visit cannot keep track of. -/
def isShallow : Item → Bool
  | node path => decide (path.length ≤ maxDepth)
  | property _ => true

end Item

namespace Contents

/-- Nodes and properties in document order, where `path` names the nodes around them. -/
def items (path : List String) : Contents → List Item
  | done => []
  | property name value rest => .property ⟨path, name, value⟩ :: rest.items path
  | node name inner rest =>
    .node (path ++ [name]) :: (inner.items (path ++ [name]) ++ rest.items path)

/-- Names of nodes and properties in document order. -/
def names : Contents → List String
  | done => []
  | property name _ rest => name :: rest.names
  | node name inner rest => name :: (inner.names ++ rest.names)

theorem filterMap_items (c : Contents) (path : List String) :
    (c.items path).filterMap Item.property? = c.properties path := by
  induction c generalizing path with
  | done => rfl
  | property name value rest ih => exact congrArg (⟨path, name, value⟩ :: ·) (ih path)
  | node name inner rest ihInner ihRest =>
      rw [items, List.filterMap_cons_none rfl, List.filterMap_append, ihInner, ihRest, properties]

theorem filterMap_tokens (c : Contents) : c.tokens.filterMap Token.name? = c.names := by
  induction c with
  | done => rfl
  | property name value rest ih => exact congrArg (name :: ·) ih
  | node name inner rest ihInner ihRest =>
      have hinner : (inner.tokens ++ Token.endNode :: rest.tokens).filterMap Token.name? =
          inner.names ++ rest.names := by
        rw [List.filterMap_append, ihInner, List.filterMap_cons_none rfl, ihRest]
      exact congrArg (name :: ·) hinner

theorem finish_notMem_tokens (c : Contents) : Token.finish ∉ c.tokens := by
  induction c with
  | done => simp [tokens]
  | property name value rest ih => simp [tokens, ih]
  | node name inner rest ihInner ihRest => simp [tokens, ihInner, ihRest]

/-- Contents of a node that is not too deep hold no node that is, unless they are deep. -/
theorem items_shallow_iff (c : Contents) {path : List String} (hpath : path.length ≤ maxDepth) :
    (∀ item ∈ c.items path, item.isShallow = true) ↔ path.length + c.depth ≤ maxDepth := by
  induction c generalizing path with
  | done => simp [items, depth, hpath]
  | property name value rest ih =>
      rw [items, List.forall_mem_cons, ih hpath, depth]
      exact and_iff_right rfl
  | node name inner rest ihInner ihRest =>
      have hlength : (path ++ [name]).length = path.length + 1 := by simp
      rw [items, List.forall_mem_cons, List.forall_mem_append, ihRest hpath, Item.isShallow,
        decide_eq_true_iff, hlength, depth]
      constructor
      · rintro ⟨hhere, hinner, hrest⟩
        rw [ihInner (hlength ▸ hhere), hlength] at hinner
        omega
      · intro hdepth
        have hhere : path.length + 1 ≤ maxDepth := by omega
        rw [ihInner (hlength ▸ hhere), hlength]
        omega

end Contents

namespace Tree

/-- Nodes and properties in document order, the root first. -/
def items (t : Tree) : List Item := .node [t.name] :: t.contents.items [t.name]

def names (t : Tree) : List String := t.name :: t.contents.names

/-- The properties that precede the first node that is too deep. -/
def shown (t : Tree) : List Property :=
  (t.items.takeWhile Item.isShallow).filterMap Item.property?

theorem filterMap_items (t : Tree) : t.items.filterMap Item.property? = t.properties := by
  rw [items, List.filterMap_cons_none rfl, Contents.filterMap_items, properties]

theorem items_shallow_iff (t : Tree) :
    (∀ item ∈ t.items, item.isShallow = true) ↔ t.depth ≤ maxDepth := by
  have hroot : [t.name].length ≤ maxDepth := Nat.le_add_left 1 15
  rw [items, List.forall_mem_cons, t.contents.items_shallow_iff hroot, depth, Nat.add_comm]
  exact and_iff_right (decide_eq_true hroot)

/-- Where no node is too deep every property is shown. -/
theorem shown_eq_properties {t : Tree} (h : t.depth ≤ maxDepth) : t.shown = t.properties := by
  rw [shown, List.takeWhile_eq_self_iff.2 (t.items_shallow_iff.2 h), filterMap_items]

theorem filterMap_tokens (t : Tree) : t.tokens.filterMap Token.name? = t.names := by
  have hcontents : (t.contents.tokens ++ [Token.endNode]).filterMap Token.name? =
      t.contents.names := by
    rw [List.filterMap_append, t.contents.filterMap_tokens]
    exact List.append_nil _
  exact congrArg (t.name :: ·) hcontents

theorem finish_notMem_tokens (t : Tree) : Token.finish ∉ t.tokens := by
  simp [tokens, t.contents.finish_notMem_tokens]

end Tree

/-! ## Visiting -/

section

variable {σ : Type} {visit : σ → Property → Bool × σ} {ending : Except TreeError Unit}

/-- Shows the properties to a visitor one after the other until it says stop; true if it
    did. -/
def visitAll (visit : σ → Property → Bool × σ) (state : σ) : List Property → Bool × σ
  | [] => (false, state)
  | p :: properties =>
    match visit state p with
    | (true, state) => (true, state)
    | (false, state) => visitAll visit state properties

/-- Takes a visitor along the items; the result, if it does not come to the end. -/
def visitItems (visit : σ → Property → Bool × σ) (state : σ) :
    List Item → Option (Except TreeError Unit) × σ
  | [] => (none, state)
  | .node path :: items =>
    if path.length ≤ maxDepth then visitItems visit state items
    else (some (.error .tooDeep), state)
  | .property p :: items =>
    match visit state p with
    | (true, state) => (some (.ok ()), state)
    | (false, state) => visitItems visit state items

theorem visitItems_append (state : σ) (items items' : List Item) :
    visitItems visit state (items ++ items') =
      match visitItems visit state items with
      | (none, state) => visitItems visit state items'
      | (some result, state) => (some result, state) := by
  induction items generalizing state with
  | nil => rfl
  | cons item items ih =>
      cases item with
      | node path =>
          rw [List.cons_append, visitItems, visitItems, ih]
          split <;> rfl
      | property p =>
          rw [List.cons_append, visitItems, visitItems]
          split
          · rfl
          · exact ih _

/-- A visitor is shown what precedes the first deep node and stopped there. -/
theorem visitItems_eq (state : σ) (items : List Item) :
    visitItems visit state items =
      match visitAll visit state ((items.takeWhile Item.isShallow).filterMap Item.property?) with
      | (true, state) => (some (.ok ()), state)
      | (false, state) =>
        (if items.all Item.isShallow then none else some (.error .tooDeep), state) := by
  induction items generalizing state with
  | nil => rfl
  | cons item items ih =>
      cases item with
      | node path =>
          by_cases hdeep : path.length ≤ maxDepth
          · have hshallow : (Item.node path).isShallow = true := decide_eq_true hdeep
            rw [visitItems, if_pos hdeep, ih, List.takeWhile_cons_of_pos hshallow,
              List.filterMap_cons_none rfl, List.all_cons, hshallow, Bool.true_and]
          · have hshallow : (Item.node path).isShallow = false := decide_eq_false hdeep
            rw [visitItems, if_neg hdeep, List.takeWhile_cons_of_neg (by simp [hshallow]),
              List.all_cons, hshallow]
            rfl
      | property p =>
          have hshallow : (Item.property p).isShallow = true := rfl
          rw [visitItems, List.takeWhile_cons_of_pos hshallow, List.all_cons, hshallow,
            Bool.true_and, List.filterMap_cons]
          simp only [Item.property?, visitAll]
          cases hvisit : visit state p with
          | mk stop state' =>
              cases stop with
              | true => rfl
              | false => exact ih state'

/-- The tokens of a node's contents take a visitor along its items, and then on from where
    the contents end, with the same nodes open. -/
theorem visitTokens_contents (c : Contents) (path : List String) (state : σ)
    (tokens : List Token) :
    visitTokens visit ending path state (c.tokens ++ tokens) =
      match visitItems visit state (c.items path) with
      | (none, state) => visitTokens visit ending path state tokens
      | (some result, state) => (result, state) := by
  induction c generalizing path state tokens with
  | done => rfl
  | property name value rest ih =>
      rw [Contents.tokens, List.cons_append, visitTokens, Contents.items, visitItems]
      cases hvisit : visit state ⟨path, name, value⟩ with
      | mk stop state' =>
          cases stop with
          | true => rfl
          | false => exact ih path state' tokens
  | node name inner rest ihInner ihRest =>
      have hlength : (path ++ [name]).length = path.length + 1 := by simp
      rw [Contents.tokens, List.cons_append, List.append_assoc, visitTokens, Contents.items,
        visitItems, hlength]
      by_cases hdeep : path.length < maxDepth
      · rw [if_pos hdeep, if_pos (Nat.succ_le_of_lt hdeep), ihInner, visitItems_append]
        -- The token that closes the node takes its name off the path again.
        cases hinner : visitItems visit state (inner.items (path ++ [name])) with
        | mk result state' =>
            cases result with
            | some result => rfl
            | none =>
                simp only
                rw [List.cons_append, visitTokens, List.dropLast_concat, ihRest]
      · rw [if_neg hdeep, if_neg fun h => hdeep (Nat.lt_of_succ_le h)]

theorem visitTokens_tree (t : Tree) (state : σ) :
    visitTokens visit ending [] state t.tokens =
      match visitItems visit state t.items with
      | (none, state) => (ending, state)
      | (some result, state) => (result, state) := by
  have hempty : ([] : List String).length < maxDepth := Nat.zero_lt_succ 15
  have hroot : [t.name].length ≤ maxDepth := hempty
  rw [Tree.tokens, visitTokens, if_pos hempty, List.nil_append, visitTokens_contents, Tree.items,
    visitItems, if_pos hroot]
  rfl

/-- Tokens without meaning are passed over. -/
theorem visitTokens_filter_nop (path : List String) (state : σ) (tokens : List Token) :
    visitTokens visit ending path state (tokens.filter (· ≠ .nop)) =
      visitTokens visit ending path state tokens := by
  induction tokens generalizing path state with
  | nil => rfl
  | cons t tokens ih =>
      cases t with
      | nop =>
          rw [List.filter_cons_of_neg (by simp), ih]
          rfl
      | beginNode name =>
          rw [List.filter_cons_of_pos (by simp), visitTokens, visitTokens, ih]
      | endNode =>
          rw [List.filter_cons_of_pos (by simp), visitTokens, visitTokens, ih]
      | property name value =>
          rw [List.filter_cons_of_pos (by simp), visitTokens, visitTokens]
          split
          · rfl
          · exact ih _ _
      | finish =>
          rw [List.filter_cons_of_pos (by simp)]
          rfl

variable (visit) in
/-- A blob whose tokens are those of a tree, apart from tokens without meaning, shows the
    properties of the tree up to the first node that is too deep. -/
theorem visit_of_tokens {b : Blob} {t : Tree} (hnops : b.tokens.tokens.filter (· ≠ .nop) = t.tokens)
    (hending : b.tokens.ending = .ok ()) (state : σ) :
    b.visit visit state =
      match visitAll visit state t.shown with
      | (true, state) => (.ok (), state)
      | (false, state) => (if t.depth ≤ maxDepth then .ok () else .error .tooDeep, state) := by
  have hall : (t.items.all Item.isShallow = true) ↔ t.depth ≤ maxDepth := by
    rw [List.all_eq_true]
    exact t.items_shallow_iff
  rw [Blob.visit, hending, ← visitTokens_filter_nop, hnops, visitTokens_tree, visitItems_eq,
    ← Tree.shown]
  cases visitAll visit state t.shown with
  | mk stop state' =>
      cases stop with
      | true => rfl
      | false =>
          by_cases hdepth : t.depth ≤ maxDepth
          · rw [if_pos (hall.2 hdepth), if_pos hdepth]
          · rw [if_neg (mt hall.1 hdepth), if_neg hdepth]

end

/-! ## Recording what is shown -/

/-- The visitor that takes down what it is shown, up to a limit. -/
def record (limit : Option Nat) (seen : List Property) (p : Property) : Bool × List Property :=
  (limit.any fun n => decide (n ≤ seen.length + 1), seen ++ [p])

theorem Blob.properties_eq (b : Blob) (limit : Option Nat) :
    b.properties limit = b.visit (record limit) [] := rfl

/-- Without a limit everything is taken down. -/
theorem visitAll_record_none (seen properties : List Property) :
    visitAll (record none) seen properties = (false, seen ++ properties) := by
  induction properties generalizing seen with
  | nil => rw [visitAll, List.append_nil]
  | cons p properties ih =>
      have hnext : record none seen p = (false, seen ++ [p]) := rfl
      rw [visitAll, hnext]
      simp only [ih, List.append_assoc, List.singleton_append]

/-- With a limit that is not reached yet, as many are taken down as are missing. -/
theorem visitAll_record_some {limit : Nat} {seen : List Property} (h : seen.length < limit)
    (properties : List Property) :
    visitAll (record (some limit)) seen properties =
      (decide (limit ≤ seen.length + properties.length),
        seen ++ properties.take (limit - seen.length)) := by
  induction properties generalizing seen with
  | nil =>
      rw [visitAll, List.take_nil, List.append_nil, List.length_nil, Nat.add_zero,
        decide_eq_false (Nat.not_le_of_lt h)]
  | cons p properties ih =>
      have hlength : (seen ++ [p]).length = seen.length + 1 := by simp
      have hnext : record (some limit) seen p =
          (decide (limit ≤ seen.length + 1), seen ++ [p]) := rfl
      have htake : seen ++ (p :: properties).take (limit - seen.length) =
          (seen ++ [p]) ++ properties.take (limit - (seen.length + 1)) := by
        have hmissing : limit - seen.length = limit - (seen.length + 1) + 1 := by omega
        rw [hmissing, List.take_succ_cons, List.append_assoc, List.singleton_append]
      rw [visitAll, hnext, htake, List.length_cons, Nat.add_comm properties.length,
        ← Nat.add_assoc]
      by_cases hreached : limit ≤ seen.length + 1
      · rw [decide_eq_true hreached, Nat.sub_eq_zero_of_le hreached, List.take_zero, List.append_nil,
          decide_eq_true (Nat.le_add_right_of_le hreached)]
      · rw [decide_eq_false hreached]
        simp only
        rw [ih (by omega), hlength]

/-! ## Reading a written tree -/

/-- Tokens can be written if they name what a tree names and are otherwise without meaning. -/
theorem writable_of_filter_nop {t : Tree} {tokens : List Token}
    (hnames : ∀ name ∈ t.names, '\x00' ∉ name.toList)
    (hnops : tokens.filter (· ≠ .nop) = t.tokens) : ∀ token ∈ tokens, token.Writable := by
  intro token htoken
  by_cases hnop : token = .nop
  · subst hnop
    exact ⟨Token.noConfusion, fun name hname => by cases hname⟩
  have hmem : token ∈ t.tokens := by
    rw [← hnops]
    exact List.mem_filter.2 ⟨htoken, decide_eq_true hnop⟩
  constructor
  · rintro rfl
    exact t.finish_notMem_tokens hmem
  · intro name hname
    refine hnames name ?_
    rw [← t.filterMap_tokens]
    exact List.mem_filterMap.2 ⟨token, hmem, hname⟩

/-- A tree that was written, with tokens without meaning among its own and any bytes after
    it, is read as it was. A visitor is shown its properties in document order, up to the
    first node that is too deep, until it says stop: if no node is too deep and it never says
    stop it is shown all of them, and if it says stop at the `k`th it is shown the first `k`. -/
theorem visit_written (t : Tree) (tokens : List Token)
    (hnames : ∀ name ∈ t.names, '\x00' ∉ name.toList)
    (hnops : tokens.filter (· ≠ .nop) = t.tokens) (hsize : (writeTokens tokens).length < 2 ^ 32)
    (rest : List Byte) :
    ∃ b, Blob.ofBytes (writeTokens tokens ++ rest) = .ok b ∧
      (∀ {σ : Type} (visit : σ → Property → Bool × σ) (state : σ), b.visit visit state =
        match visitAll visit state t.shown with
        | (true, state) => (.ok (), state)
        | (false, state) => (if t.depth ≤ maxDepth then .ok () else .error .tooDeep, state)) ∧
      (t.depth ≤ maxDepth → t.shown = t.properties ∧ b.properties none = (.ok (), t.properties)) ∧
      (maxDepth < t.depth → b.properties none = (.error .tooDeep, t.shown)) ∧
      ∀ k, 0 < k → b.properties (some k) =
        (if k ≤ t.shown.length ∨ t.depth ≤ maxDepth then .ok () else .error .tooDeep,
          t.shown.take k) := by
  have htokens := tokens_writtenBlob (writable_of_filter_nop hnames hnops) hsize
  have hvisit {σ : Type} (visit : σ → Property → Bool × σ) (state : σ) :=
    visit_of_tokens visit (b := writtenBlob tokens) (t := t)
      (by rw [htokens, hnops]) (by rw [htokens]) state
  refine ⟨writtenBlob tokens, ofBytes_writeTokens hsize rest, hvisit, ?_, ?_, ?_⟩
  · intro hdepth
    rw [Blob.properties_eq, hvisit, visitAll_record_none, Tree.shown_eq_properties hdepth]
    exact ⟨rfl, by simp only [if_pos hdepth, List.nil_append]⟩
  · intro hdepth
    rw [Blob.properties_eq, hvisit, visitAll_record_none]
    simp only [if_neg (Nat.not_le_of_lt hdepth), List.nil_append]
  · intro k hk
    rw [Blob.properties_eq, hvisit, visitAll_record_some hk, List.length_nil, Nat.zero_add,
      List.nil_append, Nat.sub_zero]
    by_cases hreached : k ≤ t.shown.length
    · rw [decide_eq_true hreached, if_pos (Or.inl hreached)]
    · rw [decide_eq_false hreached]
      simp only [hreached, false_or]

/-- A tree with tokens without meaning between its own, and one whose chain of sixteen nodes
    below the root leaves the innermost out of reach. -/
theorem visit_written_nops_deep :
    (∃ b, Blob.ofBytes (writeTokens [.nop, .beginNode "", .nop, .property "model" [7, 0],
        .beginNode "cpus", .property "count" [4], .endNode, .nop, .endNode, .nop] ++ [1, 2]) =
          .ok b ∧
      b.properties none =
        (.ok (), [⟨[""], "model", [7, 0]⟩, ⟨["", "cpus"], "count", [4]⟩]) ∧
      b.properties (some 1) = (.ok (), [⟨[""], "model", [7, 0]⟩])) ∧
    ∃ b, Blob.ofBytes (Tree.write ⟨"", .property "model" [7, 0] (Nat.repeat (.node "bus" · .done) 16
        (.property "count" [4] .done))⟩ ++ []) = .ok b ∧
      b.properties none = (.error .tooDeep, [⟨[""], "model", [7, 0]⟩]) := by
  constructor
  · obtain ⟨b, hread, -, hall, -, hfirst⟩ := visit_written
      ⟨"", .property "model" [7, 0] (.node "cpus" (.property "count" [4] .done) .done)⟩
      [.nop, .beginNode "", .nop, .property "model" [7, 0], .beginNode "cpus",
        .property "count" [4], .endNode, .nop, .endNode, .nop]
      (by decide +kernel) (by decide +kernel) (by decide +kernel) [1, 2]
    exact ⟨b, hread, (hall (by decide)).2, hfirst 1 (by decide)⟩
  · have hwrite (t : Tree) := visit_written t t.tokens
    obtain ⟨b, hread, -, -, hdeep, -⟩ := hwrite
      ⟨"", .property "model" [7, 0] (Nat.repeat (.node "bus" · .done) 16
        (.property "count" [4] .done))⟩
      (by decide +kernel) (by decide +kernel) (by decide +kernel) []
    exact ⟨b, hread, hdeep (by decide)⟩

end TaskKernel.DeviceTree
