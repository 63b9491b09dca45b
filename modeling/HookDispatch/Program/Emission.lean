import HookDispatch.Program.Basic
import HookDispatch.Program.Jump
import HookDispatch.Trie.Node

/-!
From a trie to operations. The emission of an edge group is a list, read off the edges alone: each
item stands for one operation, and remembers if it is a branch that waits for its target or the
first operation of a node. Where nothing can be emitted the list has the reason. Positions are
given by counting, so nothing has to be known in advance.

An edge tests its byte and goes to the next sibling on failure. Below a node whose subtree is a
single path, the whole name is compared at once if collapsing is on.
-/
namespace HookDispatch

namespace Method

def unpackFrom (index temp : Nat) : List Parameter → List Operation
  | [] => []
  | p :: ps =>
    if p.isBorrowing then
      .unboxTemp index p.storage (.ofNat temp) ::
        .pushTemp (.ofNat temp) (p.passing == .mutable) :: unpackFrom (index + 1) (temp + 1) ps
    else .unboxArg index p.storage :: unpackFrom (index + 1) temp ps

def writeBackFrom (index temp : Nat) : List Parameter → List Operation
  | [] => []
  | p :: ps =>
    (if p.passing = .mutable then [.storeArg index (.ofNat temp) p.storage] else []) ++
      writeBackFrom (index + 1) (if p.isBorrowing then temp + 1 else temp) ps

def storeReturn (m : Method) : List Operation :=
  match m.ret with
  | .value type => [.storeResult type true]
  | .object => [.storeResult .object false]
  | .void | .generic _ => []

/-- The whole call of a hook, to the answer that the name was handled. -/
def callSequence (m : Method) (id : MethodId) : List Operation :=
  unpackFrom 0 0 m.params ++ [.call id] ++ m.storeReturn ++ writeBackFrom 0 0 m.params ++
    [.setHandled true, .ret]

end Method

inductive Item where
  | plain (op : Operation)
  /-- A branch whose target is not known yet. -/
  | jump (condition : Condition) (target : JumpTarget)
  /-- The first operation of a node: it loads the byte to be tested. -/
  | entry (node : NodeId)
deriving DecidableEq, Repr

namespace Item

def operation : Item → Operation
  | plain op => op
  | jump c _ => .branch c .pending
  | entry _ => .loadByte

def target? : Item → Option JumpTarget
  | jump _ t => some t
  | _ => none

def node? : Item → Option NodeId
  | entry id => some id
  | _ => none

end Item

/-- Emitted items, or the reason why there is none. -/
abbrev Emission := List (Except CompileError Item)

namespace Emission

def ofItems (items : List Item) : Emission := items.map .ok

def items : Emission → List Item
  | .ok item :: rest => item :: items rest
  | _ => []

def fault? : Emission → Option CompileError
  | [] => none
  | .error e :: _ => some e
  | .ok _ :: rest => fault? rest

end Emission

def Registry.emitCall (r : Registry) (id : MethodId) : Emission :=
  match r.get? id with
  | none => [.error (.deadEnd id.toNat)]
  | some (key, m) =>
    if m.ret.isGeneric then [.error (.unsupportedReturn key.text)]
    else .ofItems ((m.callSequence id).map .plain)

/-- Where a branch goes on when a test fails: to the next sibling, or out. -/
def JumpTarget.orEpilogue : Option NodeId → JumpTarget
  | some id => .node id
  | none => .epilogue

namespace Edges

/-- The tests of an edge group, with everything below; `path` leads to the group. -/
def emit (r : Registry) (collapse : Bool) (path : List UInt8) : Edges → Emission
  | nil => []
  | cons id byte terminal below rest =>
    let inside : Emission :=
      match (if collapse && terminal.isNone then below.soleLeaf else none) with
      | some leaf =>
        .ofItems [.plain (.compareName (Text.showBytes (path ++ [byte] ++ leaf.suffix))),
          .jump .different .epilogue] ++ r.emitCall leaf.hook
      | none =>
        .ofItems [.plain .advance] ++
          match terminal, below.first? with
          | some hook, none => .ofItems [.jump .remaining .epilogue] ++ r.emitCall hook
          | some hook, some first =>
            .ofItems [.jump .remaining (.node first)] ++ r.emitCall hook ++
              below.emit r collapse (path ++ [byte])
          | none, some _ =>
            .ofItems [.jump .exhausted .epilogue] ++ below.emit r collapse (path ++ [byte])
          | none, none => [.error (.deadEnd id)]
    .ofItems [.entry id, .plain (.compareByte byte), .jump .different (.orEpilogue rest.first?)] ++
      inside ++ rest.emit r collapse path

end Edges

def Trie.emit (t : Trie) (r : Registry) (collapse : Bool) : Emission :=
  Emission.ofItems [.plain .clearResult, .jump .nameEmpty .epilogue, .plain .initCursor] ++
    (if t.edges.first?.isNone then []
      else Emission.ofItems [.jump .exhausted .epilogue] ++ t.edges.emit r collapse []) ++
    Emission.ofItems [.plain (.setHandled false), .plain .ret]

def pendingJumps (items : List Item) : List PendingJump :=
  items.zipIdx.filterMap fun (item, i) => item.target?.map (⟨.ofNat i, ·⟩)

/-- The first operations of nodes, at their positions. -/
def entryMarks (items : List Item) : List (NodeId × Label) :=
  items.zipIdx.filterMap fun (item, i) => item.node?.map (·, .ofNat i)

/-- The largest number of temporaries filled for one call, when `inUse` are filled already. -/
def tempDemand (inUse : Nat) : List Operation → Nat
  | [] => inUse
  | .unboxTemp .. :: rest => tempDemand (inUse + 1) rest
  | .call _ :: rest => max inUse (tempDemand 0 rest)
  | _ :: rest => tempDemand inUse rest

end HookDispatch
