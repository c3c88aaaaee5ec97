/-
  TaskKernel.DeviceTree.Tree

  A devicetree as a tree: a root node that holds properties and further nodes in
  any order. `Tree.tokens` is its structure block without the end mark, and
  `Tree.properties` lists its properties in document order, each with its path.
-/
import TaskKernel.DeviceTree.Query

namespace TaskKernel.DeviceTree

/-- What stands inside a node, in document order. -/
inductive Contents where
  | done
  | property (name : String) (value : List Byte) (rest : Contents)
  | node (name : String) (inner rest : Contents)
deriving DecidableEq, Repr

/-- A tree: its root node by name and contents. -/
structure Tree where
  name : String
  contents : Contents
deriving DecidableEq, Repr

namespace Contents

/-- Properties in document order, where `path` names the nodes around the contents. -/
def properties (path : List String) : Contents → List Property
  | done => []
  | property name value rest => ⟨path, name, value⟩ :: rest.properties path
  | node name inner rest => inner.properties (path ++ [name]) ++ rest.properties path

/-- The tokens between those that open and close the node. -/
def tokens : Contents → List Token
  | done => []
  | property name value rest => .property name value :: rest.tokens
  | node name inner rest => .beginNode name :: (inner.tokens ++ .endNode :: rest.tokens)

def depth : Contents → Nat
  | done => 0
  | property _ _ rest => rest.depth
  | node _ inner rest => max (inner.depth + 1) rest.depth

end Contents

namespace Tree

/-- Properties in document order. -/
def properties (t : Tree) : List Property := t.contents.properties [t.name]

/-- The tokens of the structure block, without the one that marks its end. -/
def tokens (t : Tree) : List Token := .beginNode t.name :: (t.contents.tokens ++ [.endNode])

def depth (t : Tree) : Nat := t.contents.depth + 1

end Tree

end TaskKernel.DeviceTree
