import HookDispatch.Error
import HookDispatch.Program.Operation
import HookDispatch.Trie.Edges

/-!
Pending jumps. A branch is emitted before its target: a failed test goes to the next sibling edge,
emitted only after everything below the current one, and every failure goes to the epilogue at the
end. Such branches are queued and patched, each exactly once, when the places of all operations
are known.
-/
namespace HookDispatch

inductive JumpTarget where
  /-- The first operation emitted for a trie node. -/
  | node (id : NodeId)
  | epilogue
deriving DecidableEq, Repr

structure PendingJump where
  op : Label
  target : JumpTarget
deriving DecidableEq, Repr

namespace PendingJump

def destination (jump : PendingJump) (firstOp : NodeId → Option Label) (epilogue : Label) :
    Except CompileError Label :=
  match jump.target with
  | .epilogue => .ok epilogue
  | .node id =>
    match firstOp id with
    | some l => .ok l
    | none => .error (.unresolvedJump jump.op.toNat id)

/-- What keeps a jump from being patched to a destination: it is no branch, or it has a target
already. -/
def obstacle (jump : PendingJump) (ops : Array Operation) : Option CompileError :=
  match ops[jump.op.toNat]?.bind Operation.target with
  | none => some (.notABranch jump.op.toNat)
  | some l => if l.isPending then none else some (.alreadyResolved jump.op.toNat)

def patch (jump : PendingJump) (firstOp : NodeId → Option Label) (epilogue : Label)
    (ops : Array Operation) : Except CompileError (Array Operation) :=
  match jump.destination firstOp epilogue with
  | .error e => .error e
  | .ok l =>
    match jump.obstacle ops with
    | some e => .error e
    | none => .ok (ops.modify jump.op.toNat (Operation.withTarget l))

/-- Patches queued branches in order, up to the first that cannot be patched. -/
def patchAll (firstOp : NodeId → Option Label) (epilogue : Label) :
    List PendingJump → Array Operation → Array Operation × Option CompileError
  | [], ops => (ops, none)
  | jump :: queue, ops =>
    match jump.patch firstOp epilogue ops with
    | .error e => (ops, some e)
    | .ok ops => patchAll firstOp epilogue queue ops

end PendingJump

/-- Patches every queued branch and makes sure that none is left pending; the answer is the
number of patched branches. The operations are returned as far as they were patched. -/
def resolveJumps (queue : List PendingJump) (firstOp : NodeId → Option Label) (epilogue : Label)
    (ops : Array Operation) : Array Operation × Except CompileError Nat :=
  match PendingJump.patchAll firstOp epilogue queue ops with
  | (ops, some e) => (ops, .error e)
  | (ops, none) =>
    match ops.findIdx? Operation.isPendingBranch with
    | some i => (ops, .error (.danglingBranch i))
    | none => (ops, .ok queue.length)

end HookDispatch
