import HookDispatch.Error
import HookDispatch.Hooks.Registry
import HookDispatch.Program.Label
import HookDispatch.Text.Utf8

/-!
Tries as they are stored. All nodes are in one array and refer to each other by their positions: a
node has its parent and its children in the order of their creation. Keys and depths are found by
going from parent to parent.
-/
namespace HookDispatch

/-- The position of a node in a store, kept in 32 bits. -/
structure NodeIndex where
  index : UInt32
deriving DecidableEq, Repr

namespace NodeIndex

def root : NodeIndex := ⟨0⟩

/-- The index of a position; positions beyond 32 bits lose their high bits. -/
def ofNat (n : Nat) : NodeIndex := ⟨n.toUInt32⟩

def toNat (i : NodeIndex) : Nat := i.index.toNat

theorem toNat_ofNat {n : Nat} (h : n < UInt32.size) : (ofNat n).toNat = n := by
  simp only [ofNat, toNat, Nat.toUInt32, UInt32.toNat_ofNat']
  exact Nat.mod_eq_of_lt h

end NodeIndex

structure StoredNode where
  byte : Option UInt8 := none
  terminal : Option MethodId := none
  children : List NodeIndex := []
  parent : Option NodeIndex := none
  firstOp : Option Label := none
deriving DecidableEq, Repr

/-- Nodes are stored after their parents, so going from parent to parent comes to an end. -/
structure NodeStore where
  nodes : Array StoredNode := #[{}]
  keyCount : Nat := 0
  parent_lt : ∀ (i : Nat) (n : StoredNode) (p : NodeIndex), nodes[i]? = some n →
      n.parent = some p → p.toNat < i := by
    intro i n p hn hp
    cases List.mem_singleton.mp (Array.mem_def.mp (Array.mem_of_getElem? hn))
    cases hp

namespace NodeStore

variable (s : NodeStore)

def empty : NodeStore := {}

def node? (id : NodeIndex) : Option StoredNode := s.nodes[id.toNat]?

theorem parent_lt_of_node? {id p : NodeIndex} (h : (s.node? id).bind StoredNode.parent = some p) :
    p.toNat < id.toNat := by
  obtain ⟨n, hn, hp⟩ := Option.bind_eq_some_iff.mp h
  exact s.parent_lt _ n p hn hp

/-- The store with another node in the place of one, below the same parent. -/
def update (id : NodeIndex) (f : StoredNode → StoredNode) (h : ∀ n, (f n).parent = n.parent) :
    NodeStore where
  nodes := s.nodes.modify id.toNat f
  keyCount := s.keyCount
  parent_lt := by
    intro i n p hn hp
    rw [Array.getElem?_modify] at hn
    split at hn
    · obtain ⟨old, hold, rfl⟩ := Option.map_eq_some_iff.mp hn
      exact s.parent_lt i old p hold ((h old).symm.trans hp)
    · exact s.parent_lt i n p hn hp

def push (n : StoredNode) (h : ∀ p, n.parent = some p → p.toNat < s.nodes.size) : NodeStore where
  nodes := s.nodes.push n
  keyCount := s.keyCount
  parent_lt := by
    intro i m p hm hp
    rw [Array.getElem?_push] at hm
    split at hm
    · rename_i hi
      cases hm
      exact hi ▸ h p hp
    · exact s.parent_lt i m p hm hp

def pushChild (parent : NodeIndex) (byte : UInt8) : NodeIndex × NodeStore :=
  if h : parent.toNat < s.nodes.size then
    let id := NodeIndex.ofNat s.nodes.size
    let grown := s.push { byte := some byte, parent := some parent }
      fun _ hp => Option.some.inj hp ▸ h
    (id, grown.update parent (fun n => { n with children := n.children ++ [id] }) fun _ => rfl)
  else (parent, s)

/-- Hooks a node that has no hook. -/
def settle (id : NodeIndex) (hook : MethodId) : NodeStore :=
  if (s.node? id).any (·.terminal.isNone) then
    { s.update id (fun n => { n with terminal := some hook }) fun _ => rfl with
      keyCount := s.keyCount + 1 }
  else s

def setFirstOp (id : NodeIndex) (l : Label) : NodeStore :=
  s.update id (fun n => { n with firstOp := some l }) fun _ => rfl

/-- The first of some nodes with the given byte. -/
def pick (byte : UInt8) (children : List NodeIndex) : Option NodeIndex :=
  children.find? fun c => (s.node? c).any (·.byte == some byte)

def child? (id : NodeIndex) (byte : UInt8) : Option NodeIndex :=
  (s.node? id).bind fun n => s.pick byte n.children

/-- Follows bytes from a node, with new nodes where there are none, and hooks the last node. -/
def insertFrom (hook : MethodId) (s : NodeStore) (id : NodeIndex) :
    List UInt8 → NodeIndex × NodeStore
  | [] => (id, s.settle id hook)
  | b :: path =>
    match s.child? id b with
    | some c => insertFrom hook s c path
    | none => insertFrom hook (s.pushChild id b).2 (s.pushChild id b).1 path

def insert (key : String) (hook : MethodId) : Except CompileError NodeIndex × NodeStore :=
  if key.isEmpty then (.error .emptyKey, s)
  else
    let (id, grown) := insertFrom hook s .root (Text.bytes key)
    (.ok id, grown)

def follow (s : NodeStore) (id : NodeIndex) : List UInt8 → Option NodeIndex
  | [] => some id
  | b :: path => (s.child? id b).bind fun c => follow s c path

def find? (key : String) : Option NodeIndex := s.follow .root (Text.bytes key)

def get? (key : String) : Option MethodId :=
  ((s.find? key).bind s.node?).bind StoredNode.terminal

def siblings? (id : NodeIndex) : Option (List NodeIndex) :=
  (((s.node? id).bind StoredNode.parent).bind s.node?).map StoredNode.children

def nextSibling (id : NodeIndex) : Option NodeIndex :=
  (s.siblings? id).bind fun siblings => (siblings.idxOf? id).bind (siblings[· + 1]?)

def remainingSiblings (id : NodeIndex) : Nat :=
  ((s.siblings? id).bind fun siblings =>
    (siblings.idxOf? id).map (siblings.length - · - 1)).getD 0

def depth (s : NodeStore) (id : NodeIndex) : Nat :=
  match _h : (s.node? id).bind StoredNode.parent with
  | none => 0
  | some p => depth s p + 1
termination_by id.toNat
decreasing_by exact s.parent_lt_of_node? _h

/-- The bytes from the root to a node, before other bytes. -/
def spell (s : NodeStore) (id : NodeIndex) (after : List UInt8) : List UInt8 :=
  match (s.node? id).bind StoredNode.byte with
  | none => after
  | some b =>
    match _h : (s.node? id).bind StoredNode.parent with
    | none => b :: after
    | some p => spell s p (b :: after)
termination_by id.toNat
decreasing_by exact s.parent_lt_of_node? _h

def key (id : NodeIndex) : String := Text.showBytes (s.spell id [])

/-- The search for the only key that is left below a node: after some steps down it is at a node,
and in the end it has an answer. -/
inductive Collapses (s : NodeStore) : NodeIndex → Nat → Option NodeIndex → Prop
  | hooked {id : NodeIndex} {steps : Nat} {n : StoredNode} (hn : s.node? id = some n)
      (hhook : n.terminal.isSome) :
      Collapses s id steps (if n.children = [] ∧ 0 < steps then some id else none)
  | down {id only : NodeIndex} {steps : Nat} {n : StoredNode} {answer : Option NodeIndex}
      (hn : s.node? id = some n) (hbare : n.terminal = none) (honly : n.children = [only])
      (h : Collapses s only (steps + 1) answer) : Collapses s id steps answer
  | stuck {id : NodeIndex} {steps : Nat} {n : StoredNode} (hn : s.node? id = some n)
      (hbare : n.terminal = none) (hchildren : n.children.length ≠ 1) : Collapses s id steps none

end NodeStore

end HookDispatch
