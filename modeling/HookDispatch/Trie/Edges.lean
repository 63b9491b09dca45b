import HookDispatch.Hooks.Registry

/-!
The edges of a prefix tree. An edge group lists sibling edges in stored order: the first edge with
its node, everything below that node, and the remaining siblings. A node is numbered when it is
created, and a hook sits on the node where its key ends.
-/
namespace HookDispatch

/-- Nodes are numbered in the order of their creation; the root is node 0. -/
abbrev NodeId := Nat

inductive Edges where
  | nil
  | cons (id : NodeId) (byte : UInt8) (terminal : Option MethodId) (below rest : Edges)
deriving DecidableEq, Repr

namespace Edges

/-- The nodes that the edges of the group lead to, in stored order. -/
def ids : Edges → List NodeId
  | nil => []
  | cons id _ _ _ rest => id :: rest.ids

def first? : Edges → Option NodeId
  | nil => none
  | cons id .. => some id

def child? (byte : UInt8) : Edges → Option NodeId
  | nil => none
  | cons id b _ _ rest => if b = byte then some id else rest.child? byte

def seek : List UInt8 → Edges → Option (NodeId × Option MethodId)
  | [], _ => none
  | _ :: _, nil => none
  | b :: path, cons id byte terminal below rest =>
    if byte = b then
      if path = [] then some (id, terminal) else below.seek path
    else rest.seek (b :: path)

/-- A path of new nodes, numbered from `next`, with a hook at its end. -/
def chain (next : NodeId) (hook : MethodId) : List UInt8 → Edges
  | [] => nil
  | b :: path =>
    cons next b (if path = [] then some hook else none) (chain (next + 1) hook path) nil

/-- Adds a path with a hook at its end. New nodes are numbered from `next`, new edges come last
among their siblings, and a hook that is there already stays. -/
def insert (next : NodeId) (hook : MethodId) : List UInt8 → Edges → Edges
  | [], edges => edges
  | b :: path, nil => chain next hook (b :: path)
  | b :: path, cons id byte terminal below rest =>
    if byte = b then
      cons id byte (if path = [] then terminal.or (some hook) else terminal)
        (below.insert next hook path) rest
    else cons id byte terminal below (rest.insert next hook (b :: path))

/-- The node that a path leads to once it is added, from the node `here`. It is there already, or
it is the last of the nodes that are numbered from `next`. -/
def landing (next here : NodeId) : List UInt8 → Edges → NodeId
  | [], _ => here
  | _ :: path, nil => next + path.length
  | b :: path, cons id byte _ below rest =>
    if byte = b then below.landing next id path else rest.landing next here (b :: path)

/-- The number of nodes that a path adds. -/
def missing : List UInt8 → Edges → Nat
  | [], _ => 0
  | b :: path, nil => (b :: path).length
  | b :: path, cons _ byte _ below rest =>
    if byte = b then below.missing path else rest.missing (b :: path)

/-- A terminal node, with the bytes on the way to it. -/
structure Leaf where
  id : NodeId
  hook : MethodId
  suffix : List UInt8
deriving DecidableEq, Repr

/-- The terminal at the end of the group if the group is a single path without branches and
without a terminal before its end. -/
def soleLeaf : Edges → Option Leaf
  | cons id byte (some hook) nil nil => some ⟨id, hook, [byte]⟩
  | cons _ byte none below nil =>
    below.soleLeaf.map fun leaf => { leaf with suffix := byte :: leaf.suffix }
  | _ => none

@[simp]
theorem insert_nil_path (next : NodeId) (hook : MethodId) (edges : Edges) :
    edges.insert next hook [] = edges := by
  cases edges <;> rfl

@[simp]
theorem missing_nil_path (edges : Edges) : edges.missing [] = 0 := by
  cases edges <;> rfl

end Edges

end HookDispatch
