import HookDispatch.Trie.Basic

/-!
Finding one's way in a trie from a node's number. A located node knows the bytes on its path from
the root, its parent, what is below it and which siblings come after it, so its key, its depth and
its neighbours are read off.
-/
namespace HookDispatch

/-- A node in its place. -/
structure Node where
  id : NodeId
  parent : Option NodeId := none
  /-- The bytes from the root to the node. -/
  path : List UInt8 := []
  terminal : Option MethodId := none
  below : Edges
  /-- The siblings after the node. -/
  later : Edges := .nil
deriving DecidableEq, Repr

def Edges.locate (id parent : NodeId) (path : List UInt8) : Edges → Option Node
  | nil => none
  | cons here byte terminal below rest =>
    if here = id then some ⟨here, some parent, path ++ [byte], terminal, below, rest⟩
    else
      match below.locate id here (path ++ [byte]) with
      | some node => some node
      | none => rest.locate id parent path

namespace Node

/-- The byte on the edge to the node; the root has none. -/
def byte (n : Node) : Option UInt8 := n.path.getLast?

def depth (n : Node) : Nat := n.path.length

def key (n : Node) : String := Text.showBytes n.path

/-- The nodes one edge below, in stored order. -/
def children (n : Node) : List NodeId := n.below.ids

def nextSibling (n : Node) : Option NodeId := n.later.first?

def remainingSiblings (n : Node) : Nat := n.later.ids.length

/-- The only key that is left below the node, if the node has no hook itself and its subtree is a
single path to a terminal without edges. -/
def collapseTarget (n : Node) : Option NodeId :=
  if n.terminal.isSome then none else n.below.soleLeaf.map Edges.Leaf.id

end Node

namespace Trie

def rootNode (t : Trie) : Node := { id := root, below := t.edges }

def node? (t : Trie) (id : NodeId) : Option Node :=
  if id = root then some t.rootNode else t.edges.locate id root []

def child? (t : Trie) (id : NodeId) (byte : UInt8) : Option NodeId :=
  (t.node? id).bind (·.below.child? byte)

def nodes (t : Trie) : List Node := (List.range t.size).filterMap t.node?

end Trie

end HookDispatch
