import HookDispatch.Error
import HookDispatch.Program.Label
import HookDispatch.Text.Utf8
import HookDispatch.Trie.Edges

/-!
The prefix tree of hook keys. Keys are matched byte by byte in UTF-8. The first hook inserted
under a key stays; the empty key is refused. Compiling a trie marks nodes with the first operation
emitted for them.
-/
namespace HookDispatch

structure Trie where
  /-- The edges below the root. -/
  edges : Edges := .nil
  /-- The number of nodes, and the number of the next new node. -/
  size : Nat := 1
  keyCount : Nat := 0
  /-- The first operations of nodes, the latest mark first. -/
  marks : List (NodeId × Label) := []
deriving DecidableEq, Repr

namespace Trie

def empty : Trie := {}

def root : NodeId := 0

def isEmpty (t : Trie) : Bool := t.size == 1

def seek (t : Trie) (key : String) : Option (NodeId × Option MethodId) :=
  match Text.bytes key with
  | [] => some (root, none)
  | b :: path => t.edges.seek (b :: path)

def find? (t : Trie) (key : String) : Option NodeId := (t.seek key).map Prod.fst

def get? (t : Trie) (key : String) : Option MethodId := (t.seek key).bind Prod.snd

def insert (t : Trie) (key : String) (hook : MethodId) : Except CompileError Trie :=
  if key.isEmpty then .error .emptyKey
  else
    .ok { t with
      edges := t.edges.insert t.size hook (Text.bytes key)
      size := t.size + t.edges.missing (Text.bytes key)
      keyCount := if (t.get? key).isNone then t.keyCount + 1 else t.keyCount }

/-- Adds a key and tells the node that it leads to. If the key is refused the trie is the same. -/
def enter (t : Trie) (key : String) (hook : MethodId) : Except CompileError NodeId × Trie :=
  match t.insert key hook with
  | .error e => (.error e, t)
  | .ok grown => (.ok (t.edges.landing t.size root (Text.bytes key)), grown)

/-- Adds keys one after the other, up to the first that is refused. -/
def insertAll (t : Trie) : List (String × MethodId) → Except CompileError Trie
  | [] => .ok t
  | (key, hook) :: rest =>
    match t.insert key hook with
    | .error e => .error e
    | .ok t => t.insertAll rest

/-- The first operation emitted for a node, once compiled. -/
def firstOp? (t : Trie) (id : NodeId) : Option Label :=
  (t.marks.find? (·.1 == id)).map Prod.snd

/-- Marks nodes with their first operations, in order. -/
def mark (t : Trie) (marks : List (NodeId × Label)) : Trie :=
  { t with marks := marks.reverse ++ t.marks }

end Trie

end HookDispatch
