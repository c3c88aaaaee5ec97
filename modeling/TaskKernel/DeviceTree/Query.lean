/-
  TaskKernel.DeviceTree.Query

  Visiting the properties of a devicetree in document order, and the few things
  the boot path asks of it.
-/
import TaskKernel.DeviceTree.Blob

namespace TaskKernel.DeviceTree

/-! ## Visiting -/

/-- A property with the names of the nodes it lies in, from the root down; the root
    has the empty name. -/
structure Property where
  path : List String
  name : String
  value : List Byte
deriving DecidableEq, Repr

/-- Deepest path that a visit keeps track of. -/
def maxDepth : Nat := 16

/-- Visits the properties among `tokens`, of which the nodes of `path` are open, until
    `visit` says stop. `visit` threads a state of its own. -/
def visitTokens {σ : Type} (visit : σ → Property → Bool × σ) (ending : Except TreeError Unit)
    (path : List String) (state : σ) : List Token → Except TreeError Unit × σ
  | [] => (ending, state)
  | .beginNode name :: tokens =>
    if path.length < maxDepth then visitTokens visit ending (path ++ [name]) state tokens
    else (.error .tooDeep, state)
  | .endNode :: tokens => visitTokens visit ending path.dropLast state tokens
  | .property name value :: tokens =>
    match visit state ⟨path, name, value⟩ with
    | (true, state) => (.ok (), state)
    | (false, state) => visitTokens visit ending path state tokens
  | .nop :: tokens => visitTokens visit ending path state tokens
  | .finish :: _ => (.ok (), state)

namespace Blob

/-- Visits the properties of the tree in document order until `visit` says stop. -/
def visit {σ : Type} (b : Blob) (visit : σ → Property → Bool × σ) (state : σ) :
    Except TreeError Unit × σ :=
  visitTokens visit b.tokens.ending [] state b.tokens.tokens

end Blob

/-- The properties seen by a visitor that stops once it has seen `limit` of them; it
    looks only after it has seen one. -/
def Blob.properties (b : Blob) (limit : Option Nat) : Except TreeError Unit × List Property :=
  b.visit (fun seen p => (limit.any fun n => decide (n ≤ seen.length + 1), seen ++ [p])) []

/-! ## Lookup -/

/-- A node name without its unit address. -/
def baseName (name : String) : List Char := name.toList.takeWhile (· != '@')

/-- True when a node name fits a part of a path, with or without its unit address. -/
def fitsPart (name : String) (part : List Char) : Bool :=
  baseName name == part || name.toList == part

namespace Property

/-- True of a property called `name` on a node at the path with the given parts. -/
def isAt (p : Property) (parts : List (List Char)) (name : String) : Bool :=
  p.name == name && p.path.length == parts.length + 1 &&
    (p.path.tail.zip parts).all fun pair => fitsPart pair.1 pair.2

end Property

namespace Blob

/-- Value of the first property `name` on a node at `node`. -/
def property (b : Blob) (node name : String) : Except TreeError (Option (List Byte)) :=
  let parts := pathParts node
  let step (found : Option (List Byte)) (p : Property) : Bool × Option (List Byte) :=
    if p.isAt parts name then (true, some p.value) else (false, found)
  match b.visit step none with
  | (.error e, _) => .error e
  | (.ok (), found) => .ok found

/-- The value of a property, or nothing if there is none or the tree is broken. -/
def property? (b : Blob) (node name : String) : Option (List Byte) :=
  match b.property node name with
  | .ok found => found
  | .error _ => none

/-- The model of the board, from the root node. -/
def model? (b : Blob) : Option String :=
  (b.property? "/" "model").bind fun value => decodeText? (untilNul value)

/-- Physical range of the boot archive, from the `chosen` node. -/
def bootArchiveRange? (b : Blob) : Option (PhysAddr × PhysAddr) :=
  match (b.property? "/chosen" "linux,initrd-start").bind readCells,
      (b.property? "/chosen" "linux,initrd-end").bind readCells with
  | some start, some stop => if start < stop then some (⟨start⟩, ⟨stop⟩) else none
  | _, _ => none

end Blob

end TaskKernel.DeviceTree
